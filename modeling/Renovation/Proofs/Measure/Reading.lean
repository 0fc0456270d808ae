import Renovation.HeatDemand
import Renovation.Measure
import Renovation.Proofs.Datum.Conversion

set_option autoImplicit false

/-!
# What can be read

Reading is lenient: a record, a list, a text or nothing at all may stand in any field. Two things
stop it: a whole number beyond the doubles where a number is read, and one with too many digits in a
value that is put into words. For each reader there is the exact condition under which it returns.
-/

namespace Renovation

open Outcome

/-! ## Fields -/

namespace Datum

theorem field_of_not_isRecord {d : Datum} (h : d.isRecord = false) (name : String) :
    d.field name = null := by
  cases d with
  | record fields => cases h
  | null | flag | whole | real | text | list => rfl

theorem inRange_field_of_not_isRecord {d : Datum} (h : d.isRecord = false) (name : String) :
    (d.field name).InRange := by
  rw [field_of_not_isRecord h]
  trivial

theorem field_record_fields (d : Datum) (name : String) :
    (record (d.fields?.getD [])).field name = d.field name := by
  cases d <;> rfl

end Datum

section

variable {α : Type} [Number α]

theorem readNumber_returns_iff {d : Datum} :
    (∃ x : Option α, readNumber d = .ok x) ↔ d.InRange := by
  unfold readNumber
  simp only [returns_bind, pure_eq, returns_ok, and_true, Datum.number_returns_iff]

theorem readNumber_eq_none_iff {d : Datum} :
    readNumber (α := α) d = .ok none ↔ d.number = .ok none := by
  unfold readNumber
  simp only [bind_eq_ok, pure_eq, Except.ok.injEq, Option.map_eq_none_iff, exists_eq_right]

/-! ## Lines and jobs -/

namespace TypePrices

/-- Every number in a table of prices is in range. The older spelling of the ground level is looked
at only where the newer one holds no number. -/
structure Readable (stored : Datum) : Prop where
  byType : ∀ type : ResidenceType, (stored.field type.key).InRange
  older : (stored.field ResidenceType.groundLevel.key).number = .ok none →
    (stored.field ResidenceType.olderGroundKey).InRange

theorem readable_of_not_isRecord {stored : Datum} (h : stored.isRecord = false) :
    Readable stored :=
  ⟨fun _ => Datum.inRange_field_of_not_isRecord h _,
    fun _ => Datum.inRange_field_of_not_isRecord h _⟩

def orOlder (stored : Datum) : Option α → Except Fault (Option α)
  | some price => .ok (some price)
  | none => readNumber (stored.field ResidenceType.olderGroundKey)

theorem orOlder_returns_iff {stored : Datum} {newer : Option α} :
    (∃ price, orOlder stored newer = .ok price) ↔
      (newer = none → (stored.field ResidenceType.olderGroundKey).InRange) := by
  cases newer with
  | some price => exact ⟨fun _ => nofun, fun _ => ⟨_, rfl⟩⟩
  | none =>
    rw [orOlder, readNumber_returns_iff]
    exact ⟨fun h _ => h, fun h => h rfl⟩

theorem read_of_isRecord {stored : Datum} (h : stored.isRecord = true) :
    TypePrices.read stored = (do
      let newer ← readNumber (stored.field ResidenceType.groundLevel.key)
      let staircase ← readNumber (stored.field ResidenceType.staircase.key)
      let gallery ← readNumber (stored.field ResidenceType.gallery.key)
      let ground ← orOlder stored newer
      .ok (some fun
        | .groundLevel => ground
        | .staircase => staircase
        | .gallery => gallery) : Except Fault (Option (TypePrices α))) := by
  unfold TypePrices.read
  rw [h, if_neg (by decide)]
  congr 1
  funext newer
  congr 1
  funext staircase
  congr 1
  funext gallery
  cases newer <;> rfl

theorem read_returns_iff {stored : Datum} :
    (∃ prices : Option (TypePrices α), TypePrices.read stored = .ok prices) ↔
      Readable stored := by
  cases hr : stored.isRecord with
  | false =>
    unfold TypePrices.read
    rw [hr]
    exact ⟨fun _ => readable_of_not_isRecord hr, fun _ => ⟨none, rfl⟩⟩
  | true =>
    rw [read_of_isRecord hr]
    simp only [returns_bind, returns_ok, and_true, exists_and_right, orOlder_returns_iff,
      readNumber_returns_iff]
    constructor
    · rintro ⟨newer, hn, hs, hg, ho⟩
      constructor
      · intro type
        cases type with
        | groundLevel => exact readNumber_returns_iff.mp ⟨newer, hn⟩
        | staircase => exact hs
        | gallery => exact hg
      · intro hnone
        rw [readNumber_eq_none_iff.mpr hnone] at hn
        exact ho (Except.ok.inj hn).symm
    · intro h
      obtain ⟨newer, hn⟩ := readNumber_returns_iff (α := α).mpr (h.byType .groundLevel)
      refine ⟨newer, hn, h.byType .staircase, h.byType .gallery, ?_⟩
      rintro rfl
      exact h.older (readNumber_eq_none_iff.mp hn)

end TypePrices

structure PriceLine.Readable (stored : Datum) : Prop where
  told : ∀ m ∈ mentions stored, m.isWritable = true
  price : (stored.field "price").InRange
  typePrices : TypePrices.Readable (stored.field "pricesPerType")

theorem PriceLine.read_of_told {stored : Datum} (h : ∀ m ∈ mentions stored, m.isWritable = true) :
    (PriceLine.read stored : Except Fault (PriceLine α)) =
      if stored.isRecord then do
        let price ← readNumber (stored.field "price")
        let typePrices ← TypePrices.read (stored.field "pricesPerType")
        return {
          name := storedName stored
          unit := (stored.field "unit").orElse (.text "m²")
          formula := Formula.tokens (stored.field "calculation")
          price
          typePrices
          defect := formulaDefect (storedName stored) (stored.field "calculation") }
      else .ok { defect := some (.notRecord stored) } := by
  unfold PriceLine.read
  rw [Mention.check_eq_ok_iff (u := ()) |>.mpr h, ok_bind]
  cases stored.isRecord <;> rfl

theorem PriceLine.told_of_read {stored : Datum} {line : PriceLine α}
    (h : PriceLine.read stored = .ok line) : ∀ m ∈ mentions stored, m.isWritable = true := by
  obtain ⟨_, hcheck, _⟩ := bind_eq_ok.mp h
  exact Mention.check_eq_ok_iff.mp hcheck

theorem PriceLine.read_returns_iff {stored : Datum} :
    (∃ line : PriceLine α, PriceLine.read stored = .ok line) ↔ Readable stored := by
  suffices h : (∀ m ∈ mentions stored, m.isWritable = true) →
      ((∃ line : PriceLine α, PriceLine.read stored = .ok line) ↔
        (stored.field "price").InRange ∧ TypePrices.Readable (stored.field "pricesPerType")) by
    constructor
    · rintro ⟨line, hl⟩
      have told := told_of_read hl
      obtain ⟨hp, ht⟩ := (h told).mp ⟨line, hl⟩
      exact ⟨told, hp, ht⟩
    · exact fun hr => (h hr.told).mpr ⟨hr.price, hr.typePrices⟩
  intro told
  rw [read_of_told told]
  cases hr : stored.isRecord with
  | false =>
    refine ⟨fun _ => ⟨Datum.inRange_field_of_not_isRecord hr _, ?_⟩, fun _ => ⟨_, rfl⟩⟩
    rw [Datum.field_of_not_isRecord hr]
    exact TypePrices.readable_of_not_isRecord rfl
  | true =>
    rw [if_pos rfl]
    simp only [returns_bind, pure_eq, returns_ok, and_true, exists_and_right,
      readNumber_returns_iff, TypePrices.read_returns_iff]

structure Job.Readable (stored : Datum) : Prop extends PriceLine.Readable stored where
  cycleStart : (stored.field "cycleStart").InRange
  cycle : (stored.field "cycle").InRange

theorem Job.read_returns_iff {stored : Datum} :
    (∃ job : Job α, Job.read stored = .ok job) ↔ Readable stored := by
  unfold Job.read
  simp only [returns_bind, pure_eq, returns_ok, and_true, exists_and_right,
    readNumber_returns_iff, PriceLine.read_returns_iff]
  exact ⟨fun ⟨hl, hs, hc⟩ => ⟨hl, hs, hc⟩, fun h => ⟨h.toReadable, h.cycleStart, h.cycle⟩⟩

/-! ## Measures -/

namespace Measure

structure Told (stored : Datum) : Prop where
  own : ∀ m ∈ ownMentions stored, m.isWritable = true
  lines : ∀ m ∈ listMentions (stored.field "measure_prices"), m.isWritable = true
  jobs : ∀ m ∈ listMentions (stored.field "mjob_prices"), m.isWritable = true

/-- Every number that is read of a stored measure is in range, and what is said of it has a text. -/
structure Readable (stored : Datum) : Prop where
  told : Told stored
  lines : ∀ d ∈ storedItems (stored.field "measure_prices"), PriceLine.Readable d
  jobs : ∀ d ∈ storedItems (stored.field "mjob_prices"), Job.Readable d
  nuisance : (stored.field "nuisance").InRange

theorem readItems_eq_ok_iff {β : Type} {item : Datum → Except Fault β} {stored : Datum}
    {xs : List β} : readItems item stored = .ok xs ↔
      (∀ m ∈ listMentions stored, m.isWritable = true) ∧
        List.Forall₂ (fun d x => item d = .ok x) (storedItems stored) xs := by
  unfold readItems
  simp only [bind_eq_ok, Mention.check_eq_ok_iff, exists_const, mapM_eq_ok_iff]

structure Kept (stored : Datum) (m : Measure α) : Prop where
  jobs : List.Forall₂ (fun d job => Job.read d = .ok job) (storedItems (stored.field "mjob_prices"))
    m.jobs
  heatDemand : m.heatDemand = (stored.field "heat_demand").fields?.getD []

/-- All that a measure holds comes from its record, and nothing from what is no record. -/
structure ReadFrom (stored : Datum) (m : Measure α) : Prop extends Kept stored m where
  name : m.name = storedName stored
  group : m.group = (stored.field "group").orElse (.text "")
  lines : List.Forall₂ (fun d line => PriceLine.read d = .ok line)
    (storedItems (stored.field "measure_prices")) m.lines
  nuisance : readNumber (stored.field "nuisance") = .ok m.nuisance

theorem told_of_not_isRecord {stored : Datum} (h : stored.isRecord = false)
    (own : ∀ m ∈ ownMentions stored, m.isWritable = true) : Told stored where
  own := own
  lines := by rw [Datum.field_of_not_isRecord h]; nofun
  jobs := by rw [Datum.field_of_not_isRecord h]; nofun

theorem readFrom_of_not_isRecord {stored : Datum} (h : stored.isRecord = false) {m : Measure α} :
    ReadFrom stored m ↔ m = {} := by
  have hfield := Datum.field_of_not_isRecord h
  constructor
  · rintro ⟨⟨jobs, heatDemand⟩, name, group, lines, nuisance⟩
    obtain ⟨mname, mgroup, mlines, mjobs, mheat, mnuisance⟩ := m
    rw [hfield] at jobs heatDemand group lines nuisance
    rw [storedName, hfield] at name
    cases jobs
    cases lines
    cases nuisance
    cases name
    cases group
    cases heatDemand
    rfl
  · rintro rfl
    constructor
    · constructor <;> rw [hfield]
      · exact .nil
      · rfl
    · rw [storedName, hfield]
      rfl
    · rw [hfield]
      rfl
    · rw [hfield]
      exact .nil
    · rw [hfield]
      rfl

theorem read_eq_ok_iff {stored : Datum} {m : Measure α} :
    Measure.read stored = .ok m ↔ Told stored ∧ ReadFrom stored m := by
  unfold Measure.read
  simp only [bind_eq_ok, Mention.check_eq_ok_iff, exists_const]
  cases hr : stored.isRecord with
  | false =>
    rw [readFrom_of_not_isRecord hr]
    constructor
    · rintro ⟨own, h⟩
      exact ⟨told_of_not_isRecord hr own, (Except.ok.inj h).symm⟩
    · rintro ⟨told, rfl⟩
      exact ⟨told.own, rfl⟩
  | true =>
    rw [if_neg (by decide)]
    simp only [bind_eq_ok, pure_eq, Except.ok.injEq, readItems_eq_ok_iff]
    constructor
    · rintro ⟨own, lines, ⟨toldLines, hlines⟩, jobs, ⟨toldJobs, hjobs⟩, nuisance, hnuisance, rfl⟩
      exact ⟨⟨own, toldLines, toldJobs⟩, ⟨hjobs, rfl⟩, rfl, rfl, hlines, hnuisance⟩
    · rintro ⟨told, h⟩
      refine ⟨told.own, m.lines, ⟨told.lines, h.lines⟩, m.jobs, ⟨told.jobs, h.jobs⟩, m.nuisance,
        h.nuisance, ?_⟩
      rw [← h.name, ← h.group, ← h.heatDemand]

theorem read_returns_iff {stored : Datum} :
    (∃ m : Measure α, Measure.read stored = .ok m) ↔ Readable stored := by
  simp only [read_eq_ok_iff]
  constructor
  · rintro ⟨m, told, h⟩
    refine ⟨told, ?_, ?_, readNumber_returns_iff.mp ⟨_, h.nuisance⟩⟩
    · simp only [← PriceLine.read_returns_iff (α := α)]
      exact mapM_returns_iff.mp ⟨_, mapM_eq_ok_iff.mpr h.lines⟩
    · simp only [← Job.read_returns_iff (α := α)]
      exact mapM_returns_iff.mp ⟨_, mapM_eq_ok_iff.mpr h.jobs⟩
  · intro h
    obtain ⟨lines, hlines⟩ := mapM_returns_iff.mpr fun d hd =>
      PriceLine.read_returns_iff (α := α).mpr (h.lines d hd)
    obtain ⟨jobs, hjobs⟩ := mapM_returns_iff.mpr fun d hd =>
      Job.read_returns_iff (α := α).mpr (h.jobs d hd)
    obtain ⟨nuisance, hnuisance⟩ := readNumber_returns_iff (α := α).mpr h.nuisance
    exact ⟨⟨_, _, lines, jobs, _, nuisance⟩, h.told, ⟨mapM_eq_ok_iff.mp hjobs, rfl⟩, rfl, rfl,
      mapM_eq_ok_iff.mp hlines, hnuisance⟩

theorem kept_of_read {stored : Datum} {m : Measure α} (h : Measure.read stored = .ok m) :
    Kept stored m :=
  (read_eq_ok_iff.mp h).2.toKept

end Measure

end

/-! ## Heat demand -/

theorem ResidenceType.classify_text (s : String) : classify (.text s) = .ok (ofText s) := by
  unfold classify Datum.isBlank
  by_cases h : s.isEmpty = true
  · rw [if_pos h, String.isEmpty_iff.mp h]
    rfl
  · rw [if_neg h]

namespace HeatDemand

def Readable (table : Datum) (type : ResidenceType) (period : Datum) : Prop :=
  ∀ entries entry, listFor table type = .list entries →
    entries.find? (isFor period) = some entry → (entry.field "value").InRange

theorem inPeriod_returns_iff {period : Datum} {entries : List Datum} :
    (∃ x, inPeriod period entries = .ok x) ↔
      ∀ entry, entries.find? (isFor period) = some entry → (entry.field "value").InRange := by
  unfold inPeriod
  cases entries.find? (isFor period) with
  | none => exact ⟨fun _ => nofun, fun _ => ⟨_, rfl⟩⟩
  | some entry =>
    dsimp only
    rw [Datum.numberOrZero_returns_iff]
    exact ⟨fun h _ he => Option.some.inj he ▸ h, fun h => h entry rfl⟩

theorem listFor_record_fields (table : Datum) (type : ResidenceType) :
    listFor (.record (table.fields?.getD [])) type = listFor table type := by
  unfold listFor
  rw [Datum.field_record_fields, Datum.field_record_fields]

theorem reduction_returns_iff {table residenceType period : Datum} {type : ResidenceType}
    (h : ResidenceType.classify residenceType = .ok type) :
    (∃ x, reduction (.record (table.fields?.getD [])) residenceType period = .ok x) ↔
      Readable table type period := by
  unfold reduction Readable
  rw [h, ok_bind, listFor_record_fields]
  cases listFor table type with
  | list entries =>
    refine inPeriod_returns_iff.trans ⟨?_, fun hr entry hf => hr _ entry rfl hf⟩
    rintro hr _ entry ⟨⟩ hf
    exact hr entry hf
  | null | flag | whole | real | text | record => exact ⟨fun _ => nofun, fun _ => ⟨_, rfl⟩⟩

end HeatDemand

end Renovation
