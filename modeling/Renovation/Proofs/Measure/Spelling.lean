import Renovation.Measure.Result
import Renovation.Proofs.Measure.Reading

set_option autoImplicit false

/-!
# The older spelling of the ground level

What a record keeps for the ground level stands in a field that older records spell without its
first d. Two rules bring the older field in: a price by type falls back on it where the newer field
holds no number, a list of heat demand where the newer field is blank. Where the newer field is
missing neither rule can be noticed: spelling the older one anew changes no result and no fault,
whatever is stored there.
-/

namespace Renovation

open Outcome

/-! ## Fields under another name -/

namespace Entries

variable {β : Type}

def rename (older newer : String) (entries : Entries β) : Entries β :=
  entries.map fun entry => (if entry.1 == older then newer else entry.1, entry.2)

theorem lookup_rename {older newer : String} {entries : Entries β}
    (h : newer ∉ entries.map Prod.fst) (name : String) :
    (entries.rename older newer).lookup name =
      if name == newer then entries.lookup older
      else if name == older then none else entries.lookup name := by
  induction entries with
  | nil => simp [rename]
  | cons entry rest ih =>
    obtain ⟨k, v⟩ := entry
    rw [List.map_cons, List.mem_cons, not_or] at h
    obtain ⟨hk, hrest⟩ := h
    have htail : rename older newer ((k, v) :: rest) =
        (if k == older then newer else k, v) :: rename older newer rest := rfl
    rw [htail, List.lookup_cons, ih hrest, List.lookup_cons, List.lookup_cons]
    by_cases hold : k = older
    · rw [if_pos (beq_iff_eq.mpr hold), hold, beq_self_eq_true]
      cases name == newer <;> cases name == older <;> rfl
    · rw [if_neg (by simpa using hold), beq_false_of_ne (Ne.symm hold)]
      by_cases hname : name = k
      · have hnewer : k ≠ newer := Ne.symm hk
        rw [hname, beq_self_eq_true, beq_false_of_ne hnewer, beq_false_of_ne hold]
        rfl
      · rw [beq_false_of_ne hname]

end Entries

namespace Datum

def names (d : Datum) : List String := (d.fields?.getD []).map Prod.fst

def mapField (name : String) (f : Datum → Datum) : Datum → Datum
  | record fields =>
    record (fields.map fun entry => (entry.1, if entry.1 == name then f entry.2 else entry.2))
  | d => d

def mapItems (f : Datum → Datum) : Datum → Datum
  | list items => list (items.map f)
  | d => d

/-- A record in which the field of the ground level is spelled as it is now. -/
def respelled : Datum → Datum
  | record fields =>
    record (Entries.rename ResidenceType.olderGroundKey ResidenceType.groundLevel.key fields)
  | d => d

variable (d : Datum)

theorem isRecord_mapField (name : String) (f : Datum → Datum) :
    (d.mapField name f).isRecord = d.isRecord := by
  cases d <;> rfl

theorem isRecord_respelled : d.respelled.isRecord = d.isRecord := by
  cases d <;> rfl

theorem field_mapField {f : Datum → Datum} (hf : f null = null) (name other : String) :
    (d.mapField name f).field other = if other = name then f (d.field other) else d.field other := by
  cases d with
  | null | flag | whole | real | text | list => simp [mapField, field, hf]
  | record fields =>
    rw [mapField, field, field]
    induction fields with
    | nil => simp [hf]
    | cons entry rest ih =>
      obtain ⟨k, v⟩ := entry
      rw [List.map_cons, List.lookup_cons, List.lookup_cons]
      by_cases ho : other = k
      · simp [ho]
      · rw [beq_false_of_ne ho]
        exact ih

section

variable {d : Datum} (h : ResidenceType.groundLevel.key ∉ d.names)

include h

theorem field_respelled (name : String) : d.respelled.field name =
    if name = ResidenceType.groundLevel.key then d.field ResidenceType.olderGroundKey
    else if name = ResidenceType.olderGroundKey then null else d.field name := by
  cases d with
  | null | flag | whole | real | text | list => simp [respelled, field]
  | record fields =>
    have hfields : ResidenceType.groundLevel.key ∉ fields.map Prod.fst := h
    rw [respelled, field, Entries.lookup_rename hfields]
    simp only [beq_iff_eq]
    split_ifs <;> rfl

theorem field_respelled_newer : d.respelled.field ResidenceType.groundLevel.key =
    d.field ResidenceType.olderGroundKey := by
  rw [field_respelled h, if_pos rfl]

theorem field_respelled_older : d.respelled.field ResidenceType.olderGroundKey = null := by
  rw [field_respelled h, if_neg (by decide), if_pos rfl]

theorem field_respelled_of_ne (type : ResidenceType) (ht : type ≠ .groundLevel) :
    d.respelled.field type.key = d.field type.key := by
  have hkeys : type.key ≠ ResidenceType.groundLevel.key ∧
      type.key ≠ ResidenceType.olderGroundKey := by
    cases type with
    | groundLevel => exact absurd rfl ht
    | staircase | gallery => decide
  rw [field_respelled h, if_neg hkeys.1, if_neg hkeys.2]

end

theorem field_of_not_mem_names {name : String} (h : name ∉ d.names) : d.field name = null := by
  cases d with
  | null | flag | whole | real | text | list => rfl
  | record fields =>
    have hnone : fields.lookup name = none := Entries.lookup_of_not_mem h
    rw [field, hnone]
    rfl

end Datum

/-! ## Prices by type -/

section

variable {α : Type} [Number α]

theorem readNumber_returns_or_stops (d : Datum) :
    (∃ x : Option α, readNumber d = .ok x) ∨ readNumber (α := α) d = .error .wholeTooLarge := by
  by_cases h : d.InRange
  · exact .inl (readNumber_returns_iff.mpr h)
  · right
    rw [readNumber, Datum.number_of_not_inRange h]
    rfl

theorem TypePrices.read_respelled {stored : Datum}
    (h : ResidenceType.groundLevel.key ∉ stored.names) :
    (TypePrices.read stored.respelled : Except Fault (Option (TypePrices α))) =
      TypePrices.read stored := by
  cases hr : stored.isRecord with
  | false =>
    cases stored with
    | record => cases hr
    | null | flag | whole | real | text | list => rfl
  | true =>
    have hnone : (readNumber .null : Except Fault (Option α)) = .ok none := rfl
    rw [read_of_isRecord hr, read_of_isRecord (stored.isRecord_respelled.trans hr),
      Datum.field_respelled_newer h, Datum.field_respelled_of_ne h .staircase (by decide),
      Datum.field_respelled_of_ne h .gallery (by decide), stored.field_of_not_mem_names h,
      hnone, ok_bind]
    simp only [orOlder, Datum.field_respelled_older h, hnone]
    rcases readNumber_returns_or_stops (α := α) (stored.field ResidenceType.olderGroundKey) with
      ⟨price, hp⟩ | hp <;>
    rcases readNumber_returns_or_stops (α := α) (stored.field ResidenceType.staircase.key) with
      ⟨staircase, hs⟩ | hs <;>
    rcases readNumber_returns_or_stops (α := α) (stored.field ResidenceType.gallery.key) with
      ⟨gallery, hg⟩ | hg <;>
    simp only [hp, hs, hg, ok_bind, error_bind]
    cases price <;> rfl

/-! ## Lines and jobs -/

def respelledLine : Datum → Datum := Datum.mapField "pricesPerType" Datum.respelled

theorem field_respelledLine (stored : Datum) (name : String) : (respelledLine stored).field name =
    if name = "pricesPerType" then (stored.field name).respelled else stored.field name :=
  stored.field_mapField rfl _ _

variable {stored : Datum}
  (h : ResidenceType.groundLevel.key ∉ (stored.field "pricesPerType").names)

include h

theorem PriceLine.read_respelledLine :
    (PriceLine.read (respelledLine stored) : Except Fault (PriceLine α)) =
      PriceLine.read stored := by
  cases hr : stored.isRecord with
  | false =>
    cases stored with
    | record => cases hr
    | null | flag | whole | real | text | list => rfl
  | true =>
    have hrecord : (respelledLine stored).isRecord = true :=
      (stored.isRecord_mapField _ _).trans hr
    have hprices := TypePrices.read_respelled (α := α) h
    unfold PriceLine.read PriceLine.mentions nameMentions storedName
    simp [hr, hrecord, field_respelledLine, hprices]

theorem Job.read_respelledLine :
    (Job.read (respelledLine stored) : Except Fault (Job α)) = Job.read stored := by
  unfold Job.read
  simp [PriceLine.read_respelledLine h, field_respelledLine]

end

/-! ## Heat demand -/

namespace HeatDemand

def inList (period : Datum) : Datum → Except Fault Float
  | .list entries => inPeriod period entries
  | _ => .ok 0.0

theorem inList_of_isBlank (period : Datum) {d : Datum} (h : d.isBlank = true) :
    inList period d = .ok 0.0 := by
  cases d with
  | list entries => rw [List.isEmpty_iff.mp h]; rfl
  | null | flag | whole | real | text | record => rfl

theorem reduction_kept (table residenceType period : Datum) :
    reduction (.record (table.fields?.getD [])) residenceType period =
      ResidenceType.classify residenceType >>= fun type => inList period (listFor table type) := by
  have h : reduction (.record (table.fields?.getD [])) residenceType period =
      ResidenceType.classify residenceType >>= fun type =>
        inList period (listFor (.record (table.fields?.getD [])) type) := rfl
  simpa only [listFor_record_fields] using h

variable {table : Datum} (h : ResidenceType.groundLevel.key ∉ table.names)

include h

theorem inList_listFor_respelled (period : Datum) (type : ResidenceType) :
    inList period (listFor table.respelled type) = inList period (listFor table type) := by
  unfold listFor
  cases type with
  | groundLevel =>
    rw [Datum.field_respelled_newer h, Datum.field_respelled_older h,
      table.field_of_not_mem_names h]
    dsimp only
    by_cases hblank : (table.field ResidenceType.olderGroundKey).isBlank = true
    · rw [hblank]
      exact (inList_of_isBlank period hblank).symm
    · rw [Bool.eq_false_iff.mpr hblank]
      rfl
  | staircase | gallery => rw [Datum.field_respelled_of_ne h _ (by decide)]; simp

theorem reduction_respelled (residenceType period : Datum) :
    reduction (.record (table.respelled.fields?.getD [])) residenceType period =
      reduction (.record (table.fields?.getD [])) residenceType period := by
  simp only [reduction_kept, inList_listFor_respelled h]

end HeatDemand

/-! ## Measures -/

namespace Measure

/-- A stored measure with its table of heat demand and the prices by type of its lines and jobs
spelled anew. -/
def respelled (stored : Datum) : Datum :=
  ((stored.mapField "heat_demand" Datum.respelled).mapField "measure_prices"
    (Datum.mapItems respelledLine)).mapField "mjob_prices" (Datum.mapItems respelledLine)

/-- Nothing that is kept by type has a field for the ground level under its newer name. -/
structure LacksNewer (stored : Datum) : Prop where
  heatDemand : ResidenceType.groundLevel.key ∉ (stored.field "heat_demand").names
  lines : ∀ d ∈ storedItems (stored.field "measure_prices"),
    ResidenceType.groundLevel.key ∉ (d.field "pricesPerType").names
  jobs : ∀ d ∈ storedItems (stored.field "mjob_prices"),
    ResidenceType.groundLevel.key ∉ (d.field "pricesPerType").names

theorem isRecord_respelled (stored : Datum) : (respelled stored).isRecord = stored.isRecord := by
  simp only [respelled, Datum.isRecord_mapField]

theorem field_respelled (stored : Datum) (name : String) : (respelled stored).field name =
    if name = "heat_demand" then (stored.field name).respelled
    else if name = "measure_prices" ∨ name = "mjob_prices" then
      (stored.field name).mapItems respelledLine
    else stored.field name := by
  have htable : Datum.respelled .null = .null := rfl
  have hitems : Datum.mapItems respelledLine .null = .null := rfl
  simp only [respelled, Datum.field_mapField _ htable, Datum.field_mapField _ hitems]
  by_cases hh : name = "heat_demand"
  · simp [hh]
  · by_cases hl : name = "measure_prices" <;> by_cases hj : name = "mjob_prices" <;> simp_all

theorem storedItems_mapItems (f : Datum → Datum) (d : Datum) :
    storedItems (d.mapItems f) = (storedItems d).map f := by
  cases d <;> rfl

theorem mapM_map_of_eq {β : Type} {read : Datum → Except Fault β} {f : Datum → Datum}
    {items : List Datum} (h : ∀ d ∈ items, read (f d) = read d) :
    (items.map f).mapM read = items.mapM read := by
  induction items with
  | nil => rfl
  | cons d rest ih =>
    obtain ⟨hd, hrest⟩ := List.forall_mem_cons.mp h
    rw [List.map_cons, List.mapM_cons, List.mapM_cons, hd, ih hrest]

theorem readItems_mapItems {β : Type} {item : Datum → Except Fault β} {d : Datum}
    (h : ∀ x ∈ storedItems d, item (respelledLine x) = item x) :
    readItems item (d.mapItems respelledLine) = readItems item d := by
  have hlist : listMentions (d.mapItems respelledLine) = listMentions d := by cases d <;> rfl
  rw [readItems, readItems, hlist, storedItems_mapItems, mapM_map_of_eq h]

section

variable {α : Type} [Number α] {stored : Datum} (h : LacksNewer stored)

include h

theorem read_respelled :
    (Measure.read (respelled stored) : Except Fault (Measure α)) =
      (Measure.read stored).map fun m =>
        { m with heatDemand := (stored.field "heat_demand").respelled.fields?.getD [] } := by
  have hlines := readItems_mapItems fun d hd => PriceLine.read_respelledLine (α := α) (h.lines d hd)
  have hjobs := readItems_mapItems fun d hd => Job.read_respelledLine (α := α) (h.jobs d hd)
  cases hr : stored.isRecord with
  | false =>
    have hsame : respelled stored = stored := by
      cases stored with
      | record => cases hr
      | null | flag | whole | real | text | list => rfl
    have hfields : (stored.field "heat_demand").respelled.fields?.getD [] = [] := by
      rw [Datum.field_of_not_isRecord hr]
      rfl
    rw [hsame, hfields]
    unfold Measure.read
    cases Mention.check (ownMentions stored) with
    | error fault => rfl
    | ok u =>
      rw [hr]
      rfl
  | true =>
    unfold Measure.read ownMentions nameMentions storedName
    simp only [hr, isRecord_respelled, field_respelled, hlines, hjobs,
      Bool.not_true, Bool.false_eq_true, ↓reduceIte, String.reduceEq, or_false, or_true, or_self,
      pure_eq]
    generalize Mention.check _ = told
    generalize readItems (PriceLine.read (α := α)) _ = lines
    generalize readItems (Job.read (α := α)) _ = jobs
    cases told <;> cases lines <;> cases jobs <;>
      cases readNumber (α := α) (stored.field "nuisance") <;> rfl

end

variable {α : Type} [Growth α] {stored : Datum}

theorem calculate_of_reduction (c : Calculation α) (m : Measure α) {table : Datum.Fields}
    (h : ∀ residenceType period, HeatDemand.reduction (.record table) residenceType period =
      HeatDemand.reduction (.record m.heatDemand) residenceType period) :
    calculate c { m with heatDemand := table } = m.calculate c := by
  unfold calculate
  dsimp only
  rw [h]
  rfl

/-- Where nothing is stored under the newer spelling of the ground level, the older one may be
written in it: each result and each fault stays what it was. -/
theorem calculateStored_respelled (c : Calculation α) (h : LacksNewer stored) :
    calculateStored c (respelled stored) = calculateStored c stored := by
  unfold calculateStored
  rw [read_respelled h]
  cases hm : Measure.read (α := α) stored with
  | error fault => rfl
  | ok m =>
    refine calculate_of_reduction c m fun residenceType period => ?_
    rw [(kept_of_read hm).heatDemand]
    exact HeatDemand.reduction_respelled h.heatDemand residenceType period

theorem calculateStored_older_roof :
    let roof (ground : String) : Datum := .record [("name", .text "Dak"),
      ("heat_demand", .record [(ground, .list [.record
        [("period", .text "1965-1974"), ("value", .real 12.5)]]), ("portiek", .list [])]),
      ("measure_prices", .list [.record [("price", .whole 40), ("calculation", .list []),
        ("pricesPerType", .record [("portiek", .whole 30), (ground, .text "45,50")])]]),
      ("mjob_prices", .list [.text "onbekend"])]
    let c : Calculation Float :=
      { circumstances := { context := .record [], splitPrices := true }
        buildPeriod := .text "1965-1974", inflation := 2.0 }
    LacksNewer (roof "grongebonden") ∧
      calculateStored c (roof "grondgebonden") = calculateStored c (roof "grongebonden") := by
  intro roof c
  have older : LacksNewer (roof "grongebonden") := ⟨by decide, by decide, by decide⟩
  have renamed : respelled (roof "grongebonden") = roof "grondgebonden" := rfl
  exact ⟨older, renamed ▸ calculateStored_respelled c older⟩

end Measure

end Renovation
