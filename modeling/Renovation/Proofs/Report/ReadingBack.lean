import Mathlib.Data.List.Forall2
import Mathlib.Data.List.GetD
import Renovation.Proofs.Document.Pieces
import Renovation.Report.Csv

set_option autoImplicit false

/-!
# Reading the table back

A reader of comma-separated text that goes through it character by character. It knows nothing of
how the text was written: a comma ends a field and a line feed a record, unless a quote is open, and
in quotes two quotes stand for one. What it makes of the table of measures is the table.
-/

namespace Renovation.Report

namespace Csv

inductive Place where
  /-- Nothing of the field was read. -/
  | start
  | bare
  | quoted
  /-- After a quote within quotes: their end, or the first of two quotes. -/
  | closing

structure Reader where
  records : List (List (List Char)) := []
  /-- The fields of the record that is being read, and of its next field what was read. -/
  fields : List (List Char) := []
  field : List Char := []
  place : Place := .start

namespace Reader

def take (r : Reader) (c : Char) (place : Place) : Reader :=
  { r with field := r.field ++ [c], place }

def close? (r : Reader) (c : Char) : Option Reader :=
  if c = ',' then some { r with fields := r.fields ++ [r.field], field := [], place := .start }
  else if c = '\n' then some { records := r.records ++ [r.fields ++ [r.field]] }
  else none

def step (r : Reader) (c : Char) : Option Reader :=
  match r.place with
  | .start =>
    if c = '"' then some { r with place := .quoted } else (r.close? c).or (some (r.take c .bare))
  | .bare => if c = '"' then none else (r.close? c).or (some (r.take c .bare))
  | .quoted => if c = '"' then some { r with place := .closing } else some (r.take c .quoted)
  | .closing => if c = '"' then some (r.take c .quoted) else r.close? c

def run (r : Reader) (text : List Char) : Option Reader := text.foldlM step r

def finish (r : Reader) : Option (List (List (List Char))) :=
  match r.fields, r.place with
  | [], .start => some r.records
  | _, _ => none

@[simp] theorem run_nil (r : Reader) : r.run [] = some r := rfl

@[simp] theorem run_cons (r : Reader) (c : Char) (rest : List Char) :
    r.run (c :: rest) = (r.step c).bind (run · rest) := rfl

@[simp] theorem run_append (r : Reader) (front rest : List Char) :
    r.run (front ++ rest) = (r.run front).bind (run · rest) := List.foldlM_append

end Reader

def read (text : String) : Option (List (List String)) :=
  (({} : Reader).run text.toList).bind fun r =>
    r.finish.map fun records => records.map fun fields => fields.map String.ofList

variable {records : List (List (List Char))} {fields : List (List Char)} {field : List Char}

/-! ## One field -/

theorem needsQuotes_eq_false_iff (field : List Char) :
    needsQuotes field = false ↔ ∀ c ∈ field, c ≠ ',' ∧ c ≠ '"' ∧ c ≠ '\n' := by
  simp [needsQuotes, and_assoc]

theorem run_bare {cs : List Char} (h : needsQuotes cs = false) :
    Reader.run ⟨records, fields, field, .bare⟩ cs = some ⟨records, fields, field ++ cs, .bare⟩ := by
  rw [needsQuotes_eq_false_iff] at h
  induction cs generalizing field with
  | nil => simp
  | cons c rest ih =>
    obtain ⟨⟨hcomma, hquote, hfeed⟩, hrest⟩ := List.forall_mem_cons.mp h
    simp [Reader.step, Reader.close?, Reader.take, hcomma, hquote, hfeed, ih hrest]

theorem doubled_cons (c : Char) (rest : List Char) :
    doubled (c :: rest) = (if c = '"' then ['"', '"'] else [c]) ++ doubled rest := by
  simp [doubled]

theorem run_doubled (cs : List Char) :
    Reader.run ⟨records, fields, field, .quoted⟩ (doubled cs) =
      some ⟨records, fields, field ++ cs, .quoted⟩ := by
  induction cs generalizing field with
  | nil => simp [doubled]
  | cons c rest ih =>
    by_cases hquote : c = '"' <;> simp [doubled_cons, Reader.step, Reader.take, hquote, ih]

/-- What was written for a field is read as the field, with no quote left open. -/
theorem run_writeField (cs : List Char) : ∃ place, place ≠ .quoted ∧
    Reader.run ⟨records, fields, [], .start⟩ (writeField cs) = some ⟨records, fields, cs, place⟩ := by
  unfold writeField
  cases hquotes : needsQuotes cs with
  | true =>
    refine ⟨.closing, nofun, ?_⟩
    simp [Reader.step, run_doubled]
  | false =>
    cases cs with
    | nil => exact ⟨.start, nofun, rfl⟩
    | cons c rest =>
      refine ⟨.bare, nofun, ?_⟩
      have hfirst := (needsQuotes_eq_false_iff _).mp hquotes c List.mem_cons_self
      have hrest : needsQuotes rest = false := by
        rw [needsQuotes_eq_false_iff] at hquotes ⊢
        exact fun d hd => hquotes d (List.mem_cons_of_mem c hd)
      simp [Reader.step, Reader.close?, Reader.take, hfirst, run_bare hrest]

theorem step_comma {place : Place} (h : place ≠ .quoted) :
    Reader.step ⟨records, fields, field, place⟩ ',' =
      some ⟨records, fields ++ [field], [], .start⟩ := by
  cases place <;> simp [Reader.step, Reader.close?] at h ⊢

theorem step_lineFeed {place : Place} (h : place ≠ .quoted) :
    Reader.step ⟨records, fields, field, place⟩ '\n' =
      some ⟨records ++ [fields ++ [field]], [], [], .start⟩ := by
  cases place <;> simp [Reader.step, Reader.close?] at h ⊢

/-! ## Records -/

theorem run_writeRecord {record : List (List Char)} (h : record ≠ []) :
    Reader.run ⟨records, fields, [], .start⟩ (writeRecord record) =
      some ⟨records ++ [fields ++ record], [], [], .start⟩ := by
  induction record generalizing fields with
  | nil => exact absurd rfl h
  | cons first rest ih =>
    obtain ⟨place, hplace, hrun⟩ := @run_writeField records fields first
    cases rest with
    | nil => simp [writeRecord, hrun, step_lineFeed hplace]
    | cons second others =>
      have hothers := @ih (fields ++ [first]) (List.cons_ne_nil second others)
      simp [writeRecord, hrun, step_comma hplace, hothers]

theorem run_flatMap_writeRecord {rs : List (List (List Char))} (h : ∀ record ∈ rs, record ≠ []) :
    Reader.run ⟨records, [], [], .start⟩ (rs.flatMap writeRecord) =
      some ⟨records ++ rs, [], [], .start⟩ := by
  induction rs generalizing records with
  | nil => simp
  | cons record rest ih =>
    obtain ⟨hrecord, hrest⟩ := List.forall_mem_cons.mp h
    simp [run_writeRecord hrecord, ih hrest]

theorem write_cons (record : List String) (records : List (List String)) :
    write (record :: records) = write [record] ++ write records := by
  simp [write, ← String.ofList_append]

theorem read_write {rs : List (List String)} (h : ∀ record ∈ rs, record ≠ []) :
    read (write rs) = some rs := by
  have htexts : rs.flatMap (fun record => writeRecord (record.map String.toList)) =
      (rs.map (·.map String.toList)).flatMap writeRecord := by
    rw [List.flatMap_map]
  have hfull : ∀ record ∈ rs.map (·.map String.toList), record ≠ [] := by
    simpa using h
  rw [read, write, String.toList_ofList, htexts, run_flatMap_writeRecord hfull]
  simp [Reader.finish, Function.comp_def]

end Csv

/-! ## The table of measures -/

/-- The text of a cell of the table, both its places counted from zero. -/
def cellText? (p : Project Float) (row column : Nat) : Option String :=
  columns[column]?.bind fun (_, cell) =>
    (Cell.settle ((rows p).map cell))[row]?.map Cell.toText

theorem cellText?_eq_columnTexts (p : Project Float) (row column : Nat) :
    cellText? p row column =
      columns[column]?.bind fun (_, cell) => (columnTexts (rows p) cell)[row]? := by
  simp [cellText?, columnTexts]

def rowTexts (p : Project Float) (row : Nat) : List String :=
  columns.map fun (_, cell) => (columnTexts (rows p) cell).getD row ""

theorem records_eq (p : Project Float) :
    records p = columnNames :: (List.range p.measures.length).map (rowTexts p) := by
  simp [records, rowTexts, rows, Function.comp_def]

theorem getElem?_rowTexts {p : Project Float} {row : Nat} (h : row < p.measures.length)
    (column : Nat) : (rowTexts p row)[column]? = cellText? p row column := by
  rw [cellText?_eq_columnTexts, rowTexts, List.getElem?_map]
  cases columns[column]? with
  | none => rfl
  | some entry =>
    obtain ⟨name, cell⟩ := entry
    have hlength : (columnTexts (rows p) cell).length = p.measures.length := by
      simp [columnTexts, Cell.length_settle, rows]
    simp [List.getD, hlength, h]

theorem cellText?_eq_none {p : Project Float} {row : Nat} (h : p.measures.length ≤ row)
    (column : Nat) : cellText? p row column = none := by
  simp [cellText?, Cell.length_settle, rows, h]

theorem csv_of_holds {p : Project Float} {s : String} (h : File.Holds (tablePieces p) s) :
    s = csv p := by
  have hrow (row : Nat) : (cells p row).map Cell.toText =
      (columns.map fun column => columnTexts (rows p) column.2).map (·.getD row "") := by
    rw [cells, List.map_map, List.map_map]
    refine List.map_congr_left fun column _ => ?_
    exact (List.getD_map _ (.text "") Cell.toText).symm
  have hrows {indices : List Nat} {t : String}
      (ht : File.Holds (indices.map fun row =>
        if (cells p row).all Cell.isWritable then
          File.encode (Csv.write [(cells p row).map Cell.toText])
        else .error .tooManyDigits) t) :
      t = Csv.write (indices.map fun row =>
        (columns.map fun column => columnTexts (rows p) column.2).map (·.getD row "")) := by
    induction indices generalizing t with
    | nil => exact File.holds_nil_iff.mp ht
    | cons row indices ih =>
      obtain ⟨first, rest, hfirst, hrest, rfl⟩ := File.holds_cons_iff.mp ht
      dsimp only at hfirst
      split at hfirst
      · rw [List.map_cons, Csv.write_cons, ← ih hrest, File.eq_of_encode_eq_ok hfirst, hrow]
      · cases hfirst
  obtain ⟨header, rest, hheader, hrest, rfl⟩ := File.holds_cons_iff.mp h
  rw [csv, records, Csv.write_cons, ← hrows hrest, File.eq_of_encode_eq_ok hheader]

/-! ## What the fields show -/

def numberText (x : Float) : String := if x != x then "" else Decimal.shortestText .plain x

def complexText (re im : Float) : String :=
  if re != re || im != im then "" else Cell.complexText re im

namespace Cell

theorem settle_of_not_number {cells : List Cell} {c : Cell} (hc : c ∈ cells)
    (h : c.isNumber = false) : settle cells = cells := by
  have hall : cells.all isNumber = false := List.all_eq_false.mpr ⟨c, hc, by simp [h]⟩
  rw [settle, hall]
  rfl

theorem settle_of_complex {cells : List Cell} {re im : Float} (hc : complex re im ∈ cells) :
    settle cells = cells ∨ settle cells = cells.map toComplex := by
  have hany : cells.any isComplex = true := List.any_eq_true.mpr ⟨_, hc, rfl⟩
  unfold settle
  split
  · exact .inl rfl
  · exact .inr rfl

theorem settle_of_no_complex {cells : List Cell} (h : ∀ c ∈ cells, c.isComplex = false) :
    settle cells = cells ∨ settle cells = cells.map toReal := by
  have hany : cells.any isComplex = false := List.any_eq_false.mpr fun c hc => by simp [h c hc]
  unfold settle
  split
  · exact .inl rfl
  · rw [hany, if_neg (by decide)]
    exact .inr rfl

theorem toText_ofDatum {d : Datum} (h : (ofDatum d).isNumber = false) :
    (ofDatum d).toText = d.toText := by
  cases d with
  | real x => cases h
  | null | flag | whole | text | list | record => rfl

end Cell

/-- What the fields of a record show of a measure. -/
structure Shows (p : Project Float) (r : MeasureResult Float) (texts : List String) : Prop where
  measure : texts[0]? = some r.name
  group : (Cell.ofDatum r.group).isNumber = false → texts[1]? = some r.group.toText
  realGroup : ∀ x, r.group = .real x → texts[1]? = some (numberText x)
  /-- A whole number becomes a double where another group is one. -/
  wholeGroup : ∀ n, r.group = .whole n →
    texts[1]? = some (toString n) ∨ texts[1]? = some (numberText (Float.ofInt n))
  investment : texts[2]? = some (numberText r.price)
  isValid : texts[3]? = some (Datum.shownFlag r.isValid)
  perOccurrence : ∀ x, priceIfAny r.maintenance = some x → texts[4]? = some (numberText x)
  noOccurrence : priceIfAny r.maintenance = none → texts[4]? = some "0" ∨ texts[4]? = some "0.0"
  maintenance : (∀ m ∈ p.measures, ∃ x, m.projection.total = .real x) →
    ∀ x, r.projection.total = .real x → texts[5]? = some (numberText x)
  complexMaintenance : ∀ re im, r.projection.total = .complex re im →
    texts[5]? = some (complexText re im)
  perYear : (∀ m ∈ p.measures, ∃ x, m.projection.perYear = .real x) →
    ∀ x, r.projection.perYear = .real x → texts[6]? = some (numberText x)
  complexPerYear : ∀ re im, r.projection.perYear = .complex re im →
    texts[6]? = some (complexText re im)
  heatDemand : texts[7]? = some (numberText r.heatDemand)
  nuisance : texts[8]? = some (numberText r.nuisance)
  errors : texts[9]? = some (r.investment.error.getD "")

section

variable {p : Project Float} {r : MeasureResult Float} {row column : Nat} {name : String}
  {cell : Row Float → Cell}

theorem cellText?_eq (hr : p.measures[row]? = some r) (hcell : columns[column]? = some (name, cell))
    {f : Cell → Cell} (h : Cell.settle ((rows p).map cell) = ((rows p).map cell).map f) :
    cellText? p row column = some (f (cell (.ofResult r))).toText := by
  rw [cellText?, hcell, Option.bind_some]
  dsimp only
  rw [h, rows]
  simp [hr]

theorem cellText?_of_settle (hr : p.measures[row]? = some r)
    (hcell : columns[column]? = some (name, cell))
    (h : Cell.settle ((rows p).map cell) = (rows p).map cell) :
    cellText? p row column = some (cell (.ofResult r)).toText :=
  cellText?_eq (f := id) hr hcell (h.trans (List.map_id _).symm)

theorem cellText?_of_kept (hr : p.measures[row]? = some r)
    (hcell : columns[column]? = some (name, cell))
    (hreal : ∀ m ∈ p.measures, (cell (.ofResult m)).toReal = cell (.ofResult m))
    (hcomplex : ∀ m ∈ p.measures, (cell (.ofResult m)).isComplex = false) :
    cellText? p row column = some (cell (.ofResult r)).toText := by
  refine cellText?_of_settle hr hcell (Cell.settle_of_kept ?_ ?_)
  · rw [rows, List.map_map, List.forall_mem_map]
    exact hreal
  · rw [rows, List.map_map, List.forall_mem_map]
    exact hcomplex

theorem cellText?_of_cost {cost : Row Float → Cost Float} (hr : p.measures[row]? = some r)
    (hcell : columns[column]? = some (name, fun row => .ofCost (cost row))) :
    ((∀ m ∈ p.measures, ∃ x, cost (.ofResult m) = .real x) → ∀ x, cost (.ofResult r) = .real x →
      cellText? p row column = some (numberText x)) ∧
    ∀ re im, cost (.ofResult r) = .complex re im →
      cellText? p row column = some (complexText re im) := by
  constructor
  · intro hall x hx
    rw [cellText?_of_kept hr hcell, hx]
    · rfl
    · intro m hm
      obtain ⟨y, hy⟩ := hall m hm
      rw [hy]
      rfl
    · intro m hm
      obtain ⟨y, hy⟩ := hall m hm
      rw [hy]
      rfl
  · intro re im hcomplex
    have hmem : Cell.complex re im ∈ (rows p).map fun row => Cell.ofCost (cost row) := by
      rw [rows, List.map_map, List.mem_map]
      refine ⟨r, List.mem_of_getElem? hr, ?_⟩
      rw [Function.comp_apply, hcomplex]
      rfl
    rcases Cell.settle_of_complex hmem with h | h
    · rw [cellText?_of_settle hr hcell h, hcomplex]
      rfl
    · rw [cellText?_eq hr hcell h, hcomplex]
      rfl

theorem cellText?_of_no_complex (hr : p.measures[row]? = some r)
    (hcell : columns[column]? = some (name, cell)) (h : ∀ row, (cell row).isComplex = false) :
    cellText? p row column = some (cell (.ofResult r)).toText ∨
      cellText? p row column = some (cell (.ofResult r)).toReal.toText := by
  have hcells : ∀ c ∈ (rows p).map cell, c.isComplex = false :=
    List.forall_mem_map.mpr fun row _ => h row
  rcases Cell.settle_of_no_complex hcells with hsettle | hsettle
  · exact .inl (cellText?_of_settle hr hcell hsettle)
  · exact .inr (cellText?_eq hr hcell hsettle)

theorem cellText?_group (hr : p.measures[row]? = some r) :
    (∀ x, r.group = .real x → cellText? p row 1 = some (numberText x)) ∧
    ∀ n, r.group = .whole n →
      cellText? p row 1 = some (toString n) ∨
        cellText? p row 1 = some (numberText (Float.ofInt n)) := by
  have hcell : columns[1]? = some ("group", fun row => Cell.ofDatum row.group) := rfl
  have hcomplex (row : Row Float) : (Cell.ofDatum row.group).isComplex = false := by
    cases row.group <;> rfl
  have hgroup : (Row.ofResult r).group = r.group := rfl
  have htexts := cellText?_of_no_complex hr hcell hcomplex
  rw [hgroup] at htexts
  constructor
  · intro x hx
    rw [hx] at htexts
    exact htexts.elim id id
  · intro n hn
    rw [hn] at htexts
    exact htexts

theorem cellText?_perOccurrence (hr : p.measures[row]? = some r) :
    (∀ x, priceIfAny r.maintenance = some x → cellText? p row 4 = some (numberText x)) ∧
    (priceIfAny r.maintenance = none →
      cellText? p row 4 = some "0" ∨ cellText? p row 4 = some "0.0") := by
  have hcell : columns[4]? =
      some ("maintenance_per_occurrence", fun row => Cell.ofPrice row.perOccurrence) := rfl
  have hcomplex (row : Row Float) : (Cell.ofPrice row.perOccurrence).isComplex = false := by
    cases row.perOccurrence <;> rfl
  have hprice : (Row.ofResult r).perOccurrence = priceIfAny r.maintenance := rfl
  have htexts := cellText?_of_no_complex hr hcell hcomplex
  rw [hprice] at htexts
  constructor
  · intro x hx
    rw [hx] at htexts
    exact htexts.elim id id
  · intro hnone
    have hzero : (Cell.real (Float.ofInt 0)).toText = "0.0" := by decide +kernel
    rw [hnone] at htexts
    rwa [← hzero]

theorem shows_rowTexts (hr : p.measures[row]? = some r) : Shows p r (rowTexts p row) := by
  have hrow : row < p.measures.length := (List.getElem?_eq_some_iff.mp hr).1
  obtain ⟨hmaintenance, hcomplex⟩ := @cellText?_of_cost p r row 5 _ (·.maintenance) hr rfl
  obtain ⟨hperYear, hcomplexPerYear⟩ := @cellText?_of_cost p r row 6 _ (·.maintenancePerYear) hr rfl
  obtain ⟨hoccurrence, hnone⟩ := cellText?_perOccurrence hr
  obtain ⟨hreal, hwhole⟩ := cellText?_group hr
  have hgroup (h : (Cell.ofDatum r.group).isNumber = false) :
      cellText? p row 1 = some r.group.toText := by
    have hmem : Cell.ofDatum r.group ∈ (rows p).map fun row => Cell.ofDatum row.group := by
      rw [rows, List.map_map]
      exact List.mem_map.mpr ⟨r, List.mem_of_getElem? hr, rfl⟩
    rw [← Cell.toText_ofDatum h]
    exact @cellText?_of_settle p r row 1 "group" (fun row => Cell.ofDatum row.group) hr rfl
      (Cell.settle_of_not_number hmem h)
  have hkept {column : Nat} {name : String} {cell : Row Float → Cell}
      (hcell : columns[column]? = some (name, cell))
      (h : ∀ row, (cell row).toReal = cell row ∧ (cell row).isComplex = false) :
      cellText? p row column = some (cell (.ofResult r)).toText :=
    cellText?_of_kept hr hcell (fun _ _ => (h _).1) fun _ _ => (h _).2
  constructor <;> rw [getElem?_rowTexts hrow]
  · exact @hkept 0 "measure" (fun row => .text row.measure) rfl fun _ => ⟨rfl, rfl⟩
  · exact hgroup
  · exact hreal
  · exact hwhole
  · exact @hkept 2 "investment" (fun row => .real row.investment) rfl fun _ => ⟨rfl, rfl⟩
  · exact @hkept 3 "investment_valid" (fun row => .flag row.isValid) rfl fun _ => ⟨rfl, rfl⟩
  · exact hoccurrence
  · exact hnone
  · exact hmaintenance
  · exact hcomplex
  · exact hperYear
  · exact hcomplexPerYear
  · exact @hkept 7 "heat_demand" (fun row => .real row.heatDemand) rfl fun _ => ⟨rfl, rfl⟩
  · exact @hkept 8 "nuisance" (fun row => .real row.nuisance) rfl fun _ => ⟨rfl, rfl⟩
  · exact @hkept 9 "errors" (fun row => .text row.errors) rfl fun _ => ⟨rfl, rfl⟩

end

/-- The table of measures, which is what its file holds, read as comma-separated text: the names of
the columns, then for each measure in order a record of ten fields, each with the text of its cell
and nothing else, whatever characters the texts are made of. The fields show the measure's own texts
and numbers. -/
theorem csv_reads_back (p : Project Float) :
    (∀ text, File.Holds (tablePieces p) text → text = csv p) ∧
    ∃ lines : List (List String), Csv.read (csv p) = some (columnNames :: lines) ∧
      lines.length = p.measures.length ∧ (∀ texts ∈ lines, texts.length = 10) ∧
      (∀ row column, (lines[row]?.bind fun texts => texts[column]?) = cellText? p row column) ∧
      List.Forall₂ (Shows p) p.measures lines := by
  refine ⟨fun _ => csv_of_holds, (List.range p.measures.length).map (rowTexts p), ?_, by simp, ?_,
    ?_, ?_⟩
  · rw [csv, records_eq]
    refine Csv.read_write fun record hrecord => ?_
    rcases List.mem_cons.mp hrecord with rfl | htexts
    · simp [columnNames, columns]
    · obtain ⟨row, -, rfl⟩ := List.mem_map.mp htexts
      simp [rowTexts, columns]
  · intro texts htexts
    obtain ⟨row, -, rfl⟩ := List.mem_map.mp htexts
    simp [rowTexts, columns]
  · intro row column
    rcases Nat.lt_or_ge row p.measures.length with hlt | hge
    · simpa [hlt] using getElem?_rowTexts hlt column
    · simp [hge, cellText?_eq_none]
  · rw [List.forall₂_iff_get]
    refine ⟨by simp, fun row hrow _ => ?_⟩
    have hshows : Shows p p.measures[row] (rowTexts p row) :=
      shows_rowTexts (List.getElem?_eq_getElem hrow)
    simpa using hshows

end Renovation.Report
