import Mathlib.Data.List.TFAE
import Mathlib.Tactic.TFAE
import Renovation.Proofs.Decimal.Difference
import Renovation.Proofs.Project.Conservation
import Renovation.Proofs.Report.Overview
import Renovation.Report.Table

set_option autoImplicit false

/-!
# The table, the totals and the overview

The table of measures, the totals of a project and its overview are made by three passes over the
same results, and they read different fields: the table shows the price that counts and the error,
the totals add up what the measures give, the overview marks what is not valid. The main statement is
that they agree. The columns as the table shows them add up to the totals, and a measure that is not
valid is told by its error, by the list of the invalid measures and by its heading alike.
-/

namespace Renovation

open Outcome

/-! ## Measures that are not valid -/

variable {α : Type} [Number α]

theorem intercalate_ne_empty {separator : String} {texts : List String} (h : texts ≠ [])
    (hall : ∀ text ∈ texts, text ≠ "") : separator.intercalate texts ≠ "" := by
  cases texts with
  | nil => exact absurd rfl h
  | cons text rest =>
    have htext : text ≠ "" := hall text List.mem_cons_self
    cases rest with
    | nil => simpa using htext
    | cons next rest =>
      rw [String.intercalate_cons_cons]
      intro hempty
      exact htext (String.append_eq_empty_iff.mp (String.append_eq_empty_iff.mp hempty).1).1

theorem Aggregate.isValid_ofLines_iff {lines : List (LineResult α)}
    (h : ∀ line ∈ lines, line.Consistent) : (ofLines lines).isValid = true ↔ errors lines = [] := by
  rw [errors_eq_nil_iff h]
  exact List.all_eq_true

theorem Aggregate.error_ofItems_iff (c : Circumstances) (lines : List (PriceLine α)) :
    (ofItems c LineResult.ofLine lines).isValid = false ↔
      (ofItems c LineResult.ofLine lines).error.getD "" ≠ "" := by
  have hconsistent := forall_consistent_map_ofLine c lines
  have hmessages : ∀ text ∈ errors (lines.map (LineResult.ofLine c)), text ≠ "" := by
    rw [errors_map_ofLine, List.forall_mem_map]
    exact fun failure _ => failure.message_ne_empty
  unfold ofItems
  split
  · exact iff_of_true rfl (show "Geen berekeningen of data beschikbaar" ≠ "" by decide)
  · rw [← Bool.not_eq_true, isValid_ofLines_iff hconsistent, ofLines]
    dsimp only
    by_cases h : errors (lines.map (LineResult.ofLine c)) = []
    · simp [h]
    · simpa [h] using intercalate_ne_empty h hmessages

/-- What the report relies on in a calculated measure. -/
structure MeasureResult.Reportable (r : MeasureResult Float) : Prop where
  error : r.isValid = false ↔ r.investment.error.getD "" ≠ ""
  nuisance : Datum.isFinite r.nuisance = true

theorem Measure.reportable_of_calculateStored {c : Calculation Float} {stored : Datum}
    {r : MeasureResult Float} (h : Measure.calculateStored c stored = .ok r) : r.Reportable := by
  obtain ⟨m, hm, hr⟩ := bind_eq_ok.mp h
  obtain ⟨maintenance, p, reduction, -, -, rfl⟩ := calculate_eq_ok_iff.mp hr
  refine ⟨Aggregate.error_ofItems_iff c.circumstances m.lines, ?_⟩
  change Datum.isFinite (calculate.nuisanceOrZero m.nuisance) = true
  obtain ⟨found, hfound, hnuisance⟩ := bind_eq_ok.mp (read_eq_ok_iff.mp hm).2.nuisance
  cases found with
  | none =>
    rw [← Except.ok.inj hnuisance]
    decide +kernel
  | some x =>
    rw [← Except.ok.inj hnuisance]
    change Datum.isFinite (if Number.isZero x then 0 else x) = true
    split
    · decide +kernel
    · exact Decimal.isFinite_of_number hfound

/-! ## The highest nuisance -/

theorem Number.greater_eq_or (x y : α) : greater x y = x ∨ greater x y = y := by
  unfold greater
  split
  · exact .inr rfl
  · exact .inl rfl

theorem Number.foldl_greater_mem (x : α) (xs : List α) : xs.foldl greater x ∈ x :: xs := by
  induction xs generalizing x with
  | nil => exact List.mem_singleton_self x
  | cons y rest ih =>
    rw [List.foldl_cons]
    rcases List.mem_cons.mp (ih (greater x y)) with h | h
    · rw [h]
      rcases greater_eq_or x y with hg | hg <;> simp [hg]
    · exact List.mem_cons_of_mem x (List.mem_cons_of_mem y h)

namespace Decimal

variable {x : Float} (hx : Datum.isFinite x = true)

include hx

theorem ofDouble_greater {y : Float} (hy : Datum.isFinite y = true) :
    (Number.ofDouble (Number.greater x y) : ℚ) =
      Number.greater (Number.ofDouble x : ℚ) (Number.ofDouble y) := by
  rw [Exact.greater_eq_max, Number.greater]
  by_cases h : Number.below x y = true
  · rw [if_pos h, max_eq_right ((below_iff_of_finite hx hy).mp h).le]
  · rw [if_neg h, max_eq_left (not_lt.mp fun hlt => h ((below_iff_of_finite hx hy).mpr hlt))]

theorem ofDouble_foldl_greater {xs : List Float} (hxs : ∀ y ∈ xs, Datum.isFinite y = true) :
    (Number.ofDouble (xs.foldl Number.greater x) : ℚ) =
      (xs.map Number.ofDouble).foldl Number.greater (Number.ofDouble x : ℚ) := by
  induction xs generalizing x with
  | nil => rfl
  | cons y rest ih =>
    obtain ⟨hy, hrest⟩ := List.forall_mem_cons.mp hxs
    have hfinite : Datum.isFinite (Number.greater x y) = true := by
      rcases Number.greater_eq_or x y with h | h
      · rwa [h]
      · rwa [h]
    rw [List.foldl_cons, ih hfinite hrest, ofDouble_greater hx hy]
    rfl

theorem le_foldl_greater {xs : List Float} (hxs : ∀ y ∈ xs, Datum.isFinite y = true) :
    ∀ y ∈ x :: xs, (Number.ofDouble y : ℚ) ≤ Number.ofDouble (xs.foldl Number.greater x) := by
  obtain ⟨-, hbound⟩ := Project.isGreatest_foldl_greater (Number.ofDouble x) (xs.map Number.ofDouble)
  rw [ofDouble_foldl_greater hx hxs]
  intro y hy
  rcases List.mem_cons.mp hy with rfl | hy
  · exact hbound (.inl rfl)
  · exact hbound (.inr (List.mem_map_of_mem hy))

end Decimal

/-! ## Columns -/

theorem Cost.sum_map_real (xs : List α) : Cost.sum (xs.map Cost.real) = .real (Number.sum xs) := by
  have hstep (x : α) (xs : List α) :
      (xs.map Cost.real).foldl (· + ·) (Cost.real x) = .real (xs.foldl (· + ·) x) := by
    induction xs generalizing x with
    | nil => rfl
    | cons y rest ih => exact ih (x + y)
  exact hstep 0 xs

namespace Report

namespace Cell

def widen : Cost Float → Cost Float
  | .real x => .complex x 0
  | .complex re im => .complex re im

theorem foldl_widen_complex (re im : Float) (costs : List (Cost Float)) :
    (costs.map widen).foldl (· + ·) (Cost.complex re im) = costs.foldl (· + ·) (.complex re im) := by
  induction costs generalizing re im with
  | nil => rfl
  | cons cost rest ih =>
    cases cost with
    | real x => exact ih (re + x) (im + 0)
    | complex re' im' => exact ih (re + re') (im + im')

theorem foldl_widen_real {costs : List (Cost Float)}
    (h : (costs.map ofCost).any isComplex = true) (x : Float) :
    (costs.map widen).foldl (· + ·) (Cost.complex x 0) = costs.foldl (· + ·) (.real x) := by
  -- up to the first complex cost the two sums differ in form only; from there on they are the same
  induction costs generalizing x with
  | nil => cases h
  | cons cost rest ih =>
    cases cost with
    | real y =>
      have hzero : (0 + 0 : Float) = 0 := by decide +kernel
      have hsum : (Cost.complex x 0 + .complex y 0 : Cost Float) = .complex (x + y) 0 := by
        change Cost.complex (x + y) (0 + 0) = _
        rw [hzero]
      rw [List.map_cons, List.foldl_cons, List.foldl_cons]
      exact (congrArg ((rest.map widen).foldl (· + ·)) hsum).trans (ih h (x + y))
    | complex re im => exact foldl_widen_complex (x + re) (0 + im) rest

theorem sum_widen {costs : List (Cost Float)} (h : (costs.map ofCost).any isComplex = true) :
    Cost.sum (costs.map widen) = Cost.sum costs := by
  rw [Cost.sum, Cost.sum]
  refine Eq.trans ?_ (foldl_widen_real h 0)
  cases costs with
  | nil => cases h
  | cons cost rest => cases cost <;> rfl

theorem settle_costs (costs : List (Cost Float)) :
    ∃ shown : List (Cost Float), settle (costs.map ofCost) = shown.map ofCost ∧
      Cost.sum shown = Cost.sum costs := by
  cases h : (costs.map ofCost).any isComplex with
  | false =>
    refine ⟨costs, settle_of_kept ?_ ?_, rfl⟩
    · rw [List.forall_mem_map]
      exact fun cost _ => by cases cost <;> rfl
    · simpa using h
  | true =>
    refine ⟨costs.map widen, ?_, sum_widen h⟩
    have hnumber : (costs.map ofCost).all isNumber = true := by
      rw [List.all_eq_true, List.forall_mem_map]
      exact fun cost _ => by cases cost <;> rfl
    have hwhole : (costs.map ofCost).all isWhole = false := by
      cases costs with
      | nil => cases h
      | cons cost rest => cases cost <;> rfl
    rw [settle, hnumber, hwhole, h, if_neg (by decide), if_pos rfl, List.map_map, List.map_map]
    exact List.map_congr_left fun cost _ => by cases cost <;> rfl

end Cell

/-- The cells of the column of this name as the table shows them, from the first row down. -/
def column (p : Project Float) (name : String) : List Cell :=
  (columns.lookup name).elim [] fun cell => Cell.settle ((rows p).map cell)

/-- The numbers that a column shows come to this, added up from the first row down. -/
def ColumnSum (p : Project Float) (name : String) (total : Cost Float) : Prop :=
  ∃ costs : List (Cost Float), column p name = costs.map Cell.ofCost ∧ Cost.sum costs = total

structure ColumnsAddUp (p : Project Float) : Prop where
  investment : ColumnSum p "investment" (.real p.investment)
  heatDemand : ColumnSum p "heat_demand" (.real p.heatDemand)
  maintenance : ColumnSum p "maintenance_40_years" p.maintenance
  maintenancePerYear : ColumnSum p "maintenance_per_year" p.maintenancePerYear
  highestNuisance : ∃ values, column p "nuisance" = values.map .real ∧
    p.highestNuisance ∈ 0 :: values ∧
      ∀ x ∈ 0 :: values, (Number.ofDouble x : ℚ) ≤ Number.ofDouble p.highestNuisance

section

variable {p : Project Float} {name : String}

theorem column_of_kept {cell : Row Float → Cell} (h : columns.lookup name = some cell)
    (hreal : ∀ row, (cell row).toReal = cell row) (hcomplex : ∀ row, (cell row).isComplex = false) :
    column p name = (rows p).map cell := by
  rw [column, h, Option.elim_some]
  refine Cell.settle_of_kept ?_ ?_
  · rw [List.forall_mem_map]
    exact fun row _ => hreal row
  · rw [List.forall_mem_map]
    exact fun row _ => hcomplex row

theorem columnSum_of_real {value : Row Float → Float}
    (h : columns.lookup name = some fun row => .real (value row)) :
    ColumnSum p name (.real (Number.sum ((rows p).map value))) := by
  refine ⟨((rows p).map value).map .real, ?_, Cost.sum_map_real _⟩
  rw [column_of_kept h (fun _ => rfl) fun _ => rfl, List.map_map, List.map_map]
  rfl

theorem columnSum_of_cost {cost : Row Float → Cost Float}
    (h : columns.lookup name = some fun row => .ofCost (cost row)) :
    ColumnSum p name (Cost.sum ((rows p).map cost)) := by
  obtain ⟨shown, hshown, hsum⟩ := Cell.settle_costs ((rows p).map cost)
  refine ⟨shown, ?_, hsum⟩
  rw [column, h, Option.elim_some, ← hshown, List.map_map]
  rfl

end

theorem totals_ofResults (horizon : Maintenance.Horizon) (rs : List (MeasureResult Float)) :
    let p := Project.ofResults horizon rs
    p.investment = Number.sum ((rows p).map (·.investment)) ∧
      p.heatDemand = Number.sum ((rows p).map (·.heatDemand)) ∧
      p.maintenance = Cost.sum ((rows p).map (·.maintenance)) ∧
      p.maintenancePerYear = Cost.sum ((rows p).map (·.maintenancePerYear)) ∧
      p.highestNuisance = ((rows p).map (·.nuisance)).foldl Number.greater 0 := by
  intro p
  have hp : p = _ := Project.ofResults_eq horizon rs
  rw [hp]
  simp only [rows, List.map_map]
  exact ⟨rfl, rfl, rfl, rfl, rfl⟩

theorem columnsAddUp_ofResults (horizon : Maintenance.Horizon) {rs : List (MeasureResult Float)}
    (h : ∀ r ∈ rs, Datum.isFinite r.nuisance = true) :
    ColumnsAddUp (Project.ofResults horizon rs) := by
  obtain ⟨hinvestment, hheat, hmaintenance, hyear, hnuisance⟩ := totals_ofResults horizon rs
  have hfinite : ∀ x ∈ (rows (Project.ofResults horizon rs)).map (·.nuisance),
      Datum.isFinite x = true := by
    rw [rows, Project.ofResults_eq, List.map_map, List.forall_mem_map]
    exact h
  have hzero : Datum.isFinite 0 = true := by decide +kernel
  constructor
  · rw [hinvestment]
    exact columnSum_of_real rfl
  · rw [hheat]
    exact columnSum_of_real rfl
  · rw [hmaintenance]
    exact columnSum_of_cost rfl
  · rw [hyear]
    exact columnSum_of_cost rfl
  · refine ⟨(rows (Project.ofResults horizon rs)).map (·.nuisance), ?_, ?_, ?_⟩
    · rw [List.map_map]
      exact column_of_kept rfl (fun _ => rfl) fun _ => rfl
    · rw [hnuisance]
      exact Number.foldl_greater_mem 0 _
    · rw [hnuisance]
      exact Decimal.le_foldl_greater hzero hfinite

/-- The columns as they are shown have a cell for each row; of what tells a measure apart and
whether it is valid they show what the rows hold. -/
structure ColumnsShown (p : Project Float) : Prop where
  length : ∀ name ∈ columnNames, (column p name).length = (rows p).length
  measure : column p "measure" = (rows p).map fun row => .text row.measure
  isValid : column p "investment_valid" = (rows p).map fun row => .flag row.isValid
  investment : column p "investment" = (rows p).map fun row => .real row.investment
  errors : column p "errors" = (rows p).map fun row => .text row.errors

theorem columnsShown (p : Project Float) : ColumnsShown p where
  length name hname := by
    obtain ⟨cell, hcell⟩ : ∃ cell, columns.lookup name = some cell := by
      obtain ⟨entry, hentry, rfl⟩ := List.mem_map.mp hname
      cases h : columns.lookup entry.1 with
      | some cell => exact ⟨cell, rfl⟩
      | none => exact absurd (List.lookup_eq_none_iff.mp h entry hentry) (by simp)
    rw [column, hcell, Option.elim_some, Cell.length_settle, List.length_map]
  measure := column_of_kept rfl (fun _ => rfl) fun _ => rfl
  isValid := column_of_kept rfl (fun _ => rfl) fun _ => rfl
  investment := column_of_kept rfl (fun _ => rfl) fun _ => rfl
  errors := column_of_kept rfl (fun _ => rfl) fun _ => rfl

/-! ## Rows, names and headings -/

/-- What one measure adds: a row to the table, perhaps a name to the invalid measures, and a section
to the overview, which is a heading with lines below it. -/
structure Entry where
  row : Row Float
  invalid : List String
  heading : String
  body : List String

namespace Entry

def ofResult (horizon : Maintenance.Horizon) (r : MeasureResult Float) : Entry where
  row := .ofResult r
  invalid := if r.isValid then [] else [r.name]
  heading := Report.heading r
  body := bodyLines horizon r

def text (e : Entry) : String := ended (["", e.heading, ""] ++ e.body)

structure Agrees (e : Entry) : Prop where
  equivalent : [e.row.isValid = false, e.row.errors ≠ "", e.invalid = [e.row.measure],
    e.invalid ≠ [], e.heading = "### " ++ e.row.measure ++ " (onvolledig)",
    e.heading ≠ "### " ++ e.row.measure].TFAE
  investment : e.row.isValid = false → e.row.investment = 0

theorem invalid_eq_iff (isValid : Bool) (name : String) :
    (if isValid then [] else [name]) = [name] ↔ isValid = false := by
  cases isValid <;> simp

theorem invalid_ne_nil_iff (isValid : Bool) (name : String) :
    (if isValid then [] else [name]) ≠ [] ↔ isValid = false := by
  cases isValid <;> simp

theorem heading_eq_marked_iff (isValid : Bool) (text : String) :
    (text ++ if isValid then "" else " (onvolledig)") = text ++ " (onvolledig)" ↔
      isValid = false := by
  rw [String.append_right_inj]
  cases isValid <;> decide

theorem heading_ne_bare_iff (isValid : Bool) (text : String) :
    (text ++ if isValid then "" else " (onvolledig)") ≠ text ↔ isValid = false := by
  have hbare (mark : String) : text ++ mark = text ↔ mark = "" :=
    ⟨fun h => (String.append_right_inj text).mp (h.trans String.append_empty.symm),
      fun h => by rw [h, String.append_empty]⟩
  rw [Ne, hbare]
  cases isValid <;> decide

theorem agrees_ofResult (horizon : Maintenance.Horizon) {r : MeasureResult Float}
    (h : r.Reportable) : (ofResult horizon r).Agrees := by
  constructor
  · tfae_have 1 ↔ 2 := h.error
    tfae_have 1 ↔ 3 := (invalid_eq_iff r.isValid r.name).symm
    tfae_have 1 ↔ 4 := (invalid_ne_nil_iff r.isValid r.name).symm
    tfae_have 1 ↔ 5 := (heading_eq_marked_iff r.isValid ("### " ++ r.name)).symm
    tfae_have 1 ↔ 6 := (heading_ne_bare_iff r.isValid ("### " ++ r.name)).symm
    tfae_finish
  · intro hinvalid
    have hvalid : r.isValid = false := hinvalid
    change (if r.isValid then r.investment.price else 0) = 0
    rw [hvalid]
    rfl

end Entry

theorem invalidMeasures_eq_flatMap (p : Project Float) :
    p.invalidMeasures = p.measures.flatMap fun r => if r.isValid then [] else [r.name] := by
  rw [Project.invalidMeasures]
  induction p.measures with
  | nil => rfl
  | cons r rest ih =>
    rw [List.flatMap_cons, ← ih]
    cases h : r.isValid with
    | true => rw [List.filter_cons_of_neg (by simp [h])]; rfl
    | false => rw [List.filter_cons_of_pos (by simp [h])]; rfl

/-- The table, the totals and the overview of a project agree. They are made of one entry for each
measure, in order: the columns of the table come to the totals, and of each measure the table, the
names of the invalid measures and its section of the overview say the same. There is an overview
unless a value that it shows has no text. -/
theorem table_agrees_with_summary {c : Calculation Float} {measures : List Datum}
    {p : Project Float} (returns : Project.calculate c measures = .ok p)
    (budget? : Option (Budget Float)) (label? : Option EnergyLabel.Improvement) :
    List.Forall₂ (fun stored row => ∃ r, Measure.calculateStored c stored = .ok r ∧
      row = Row.ofResult r) measures (rows p) ∧
    ColumnsShown p ∧ ColumnsAddUp p ∧
    (∀ text, markdown p budget? label? = .ok text ↔
      (overviewValues p).all Datum.isWritable = true ∧ overview p budget? label? = text) ∧
    ∃ entries : List Entry,
      entries.map (·.row) = rows p ∧
      entries.flatMap (·.invalid) = p.invalidMeasures ∧
      overview p budget? label? = ended (openingLines p budget? label?) ++
        String.join (entries.map Entry.text) ++ ended (warningSection p.warnings) ∧
      overview p budget? label? = ended (overviewLines p budget? label?) ∧
      entries.map (·.heading) = (overviewLines p budget? label?).filter opensMeasure ∧
      ∀ e ∈ entries, e.Agrees := by
  obtain ⟨-, rs, hrs, rfl⟩ := Project.calculate_eq_ok_iff.mp returns
  have hmeasures : (Project.ofResults c.horizon rs).measures = rs := by
    rw [Project.ofResults_eq]
  have hreportable : ∀ r ∈ rs, r.Reportable :=
    forall_mem_of_forall₂ hrs fun _ _ => Measure.reportable_of_calculateStored
  refine ⟨?_, columnsShown _,
    columnsAddUp_ofResults c.horizon fun r hr => (hreportable r hr).nuisance,
    fun _ => markdown_eq_ok_iff,
    rs.map (Entry.ofResult (Project.ofResults c.horizon rs).horizon), ?_, ?_, ?_,
    overview_eq_ended _ budget? label?, ?_, ?_⟩
  · rw [rows, hmeasures, List.forall₂_map_right_iff]
    exact hrs.imp fun _ r hr => ⟨r, hr, rfl⟩
  · rw [rows, hmeasures, List.map_map]
    rfl
  · rw [invalidMeasures_eq_flatMap, hmeasures, List.flatMap_map]
    rfl
  · rw [overview_eq_sections, hmeasures, List.map_map]
    rfl
  · rw [filter_overviewLines, hmeasures, List.map_map]
    rfl
  · rw [List.forall_mem_map]
    exact fun r hr => Entry.agrees_ofResult _ (hreportable r hr)

def roofAndWall : List Datum :=
  [.record [("name", .text "Dak"), ("nuisance", .whole 3), ("measure_prices", .list
      [.record [("name", .text "Dak"), ("price", .real 50.0), ("calculation", .list
        [.record [("type", .text "variable"), ("value", .text "aantal")]])]])],
    .record [("name", .text "Gevel"), ("nuisance", .whole 2)]]

theorem table_agrees_on_roofAndWall :
    let c : Calculation Float :=
      { circumstances := { context := .record [("aantal", .real 2.0)] }, inflation := 2.0 }
    ∃ p, Project.calculate c roofAndWall = .ok p ∧
      (rows p).map (fun row => (row.measure, row.isValid)) = [("Dak", true), ("Gevel", false)] ∧
      ColumnsAddUp p ∧
      ∃ entries : List Entry, entries.map (·.row) = rows p ∧
        entries.flatMap (·.invalid) = p.invalidMeasures ∧
        overview p none none = ended (openingLines p none none) ++
          String.join (entries.map Entry.text) ++ ended (warningSection p.warnings) ∧
        overview p none none = ended (overviewLines p none none) ∧
        entries.map (·.heading) = (overviewLines p none none).filter opensMeasure ∧
        ∀ e ∈ entries, e.Agrees := by
  intro c
  obtain ⟨p, hp⟩ : ∃ p, Project.calculate c roofAndWall = .ok p :=
    exists_of_isOk (by decide +kernel)
  have hrows : (Project.calculate c roofAndWall).toOption.map
      (fun p => (rows p).map fun row => (row.measure, row.isValid)) =
        some [("Dak", true), ("Gevel", false)] := by
    decide +kernel
  rw [hp] at hrows
  obtain ⟨-, -, hsums, -, hentries⟩ := table_agrees_with_summary hp none none
  exact ⟨p, hp, Option.some.inj hrows, hsums, hentries⟩

end Report

end Renovation
