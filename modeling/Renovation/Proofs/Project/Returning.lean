import Renovation.Proofs.Exact.Cost
import Renovation.Proofs.Maintenance.Years
import Renovation.Proofs.Measure.Upkeep
import Renovation.Proofs.Project.Totals
import Renovation.Settings

set_option autoImplicit false

/-!
# When a project is calculated

What is wrong with a stored measure should show in its result and never stop the calculation. This
holds up to three things, which the main statement names: a whole number beyond the doubles where a
number is read, one with too many digits where a value is put into words, and a job whose years do
not move on. Every other measure has its result in its place.
-/

namespace Renovation

open Outcome Maintenance

variable {α : Type} [Growth α]

/-! ## One job -/

namespace Maintenance

/-- The horizon can be shared, and the growth factor has a power for every year below it. -/
structure Regular (horizon : Horizon) (inflation : α) : Prop where
  usable : horizon.Usable α
  powers : ∀ year : α, Number.belowWhole year horizon.years = true →
    ∃ cost, Growth.power (growthFactor inflation) year = .ok cost

variable {horizon : Horizon} {inflation : α}

theorem Horizon.Usable.share_returns (h : horizon.Usable α) (found : List (Occurrence α)) :
    ∃ perYear, share horizon found = .ok perYear := by
  unfold share
  cases found.isEmpty with
  | false => exact spread_returns_iff.mpr h
  | true =>
    have hy : (horizon.years == 0) = false := beq_false_of_ne h.1
    refine ⟨0, ?_⟩
    rw [if_pos rfl, spreadNothing, hy]
    rfl

theorem Regular.occurrences_returns (h : Regular horizon inflation) (price : α) {job : Job α}
    {years : List α} (hy : dueYears horizon job = .ok years) :
    ∃ found, Maintenance.occurrences price (growthFactor inflation) years = .ok found := by
  unfold Maintenance.occurrences
  rw [mapM_returns_iff]
  intro year hm
  obtain ⟨cost, hc⟩ := h.powers year (dueYears_below hy year hm)
  exact ⟨_, bind_eq_ok.mpr ⟨cost, hc, rfl⟩⟩

theorem Regular.project_returns_iff (h : Regular horizon inflation) {line : LineResult α}
    {job : Job α} : (∃ part, project horizon inflation line job = .ok part) ↔
      (line.isValid = true → Ends horizon job) := by
  cases hv : line.isValid with
  | false =>
    rw [project_of_invalid horizon inflation job hv]
    exact ⟨fun _ => nofun, fun _ => ⟨.empty, rfl⟩⟩
  | true =>
    rw [project_of_valid horizon inflation job hv, ← dueYears_returns_iff]
    constructor
    · rintro ⟨part, hp⟩ -
      obtain ⟨years, hy, -⟩ := bind_eq_ok.mp hp
      exact ⟨years, hy⟩
    · intro hends
      obtain ⟨years, hy⟩ := hends rfl
      obtain ⟨found, hf⟩ := h.occurrences_returns line.total hy
      obtain ⟨perYear, hp⟩ := h.usable.share_returns found
      rw [hy, ok_bind, hf, ok_bind, hp, ok_bind]
      exact ⟨_, rfl⟩

end Maintenance

/-! ## One measure -/

namespace Measure

variable {c : Calculation α} {m : Measure α}

theorem upkeep_returns_iff (regular : Regular c.horizon c.inflation) :
    (∃ u, m.upkeep c = .ok u) ↔ ∀ job ∈ m.pricedJobs c.circumstances,
      (LineResult.ofJob c.circumstances job).isValid = true → Ends c.horizon job := by
  by_cases hj : m.jobs = []
  · constructor
    · rw [forall_mem_pricedJobs_iff, hj]
      exact fun _ _ job hm => absurd hm List.not_mem_nil
    · exact fun _ => ⟨(.noJobs, .empty), upkeep_eq_ok_iff.mpr (.inl ⟨hj, rfl, rfl⟩)⟩
  · simp only [← regular.project_returns_iff]
    rw [← and_iff_left (a := ∀ job ∈ _, _) regular.usable, ← exists_parts_iff]
    constructor
    · rintro ⟨⟨maintenance, p⟩, hu⟩
      rcases upkeep_eq_ok_iff.mp hu with ⟨hn, _⟩ | ⟨_, _, hp⟩
      · exact absurd hn hj
      · exact ⟨p, hp⟩
    · rintro ⟨p, hp⟩
      exact ⟨(_, p), upkeep_eq_ok_iff.mpr (.inr ⟨hj, rfl, hp⟩)⟩

/-- Every number that is read of the stored measure is in range, all that is said of it has a text,
and the years of every job that has a price come to an end. -/
structure Calculable (c : Calculation α) (stored : Datum) : Prop where
  readable : Readable stored
  heatDemand : ∀ type, ResidenceType.classify c.circumstances.residenceType = .ok type →
    HeatDemand.Readable (stored.field "heat_demand") type c.buildPeriod
  ends : c.circumstances.context.isNull = false →
    ∀ d ∈ storedItems (stored.field "mjob_prices"), ∀ job : Job α, Job.read d = .ok job →
      (LineResult.ofJob c.circumstances job).isValid = true → Ends c.horizon job

theorem Kept.returns_iff (regular : Regular c.horizon c.inflation) {type : ResidenceType}
    (classified : ResidenceType.classify c.circumstances.residenceType = .ok type)
    {stored : Datum} (kept : Kept stored m) : (∃ r, m.calculate c = .ok r) ↔
      (c.circumstances.context.isNull = false →
        ∀ d ∈ storedItems (stored.field "mjob_prices"), ∀ job : Job α, Job.read d = .ok job →
          (LineResult.ofJob c.circumstances job).isValid = true → Ends c.horizon job) ∧
      HeatDemand.Readable (stored.field "heat_demand") type c.buildPeriod := by
  rw [← forall_mem_iff_of_mapM kept.jobs, ← forall_mem_pricedJobs_iff,
    ← upkeep_returns_iff regular, ← HeatDemand.reduction_returns_iff classified, ← kept.heatDemand]
  simp only [calculate_eq_ok_iff]
  constructor
  · rintro ⟨_, maintenance, p, reduction, hu, hr, _⟩
    exact ⟨⟨_, hu⟩, reduction, hr⟩
  · rintro ⟨⟨⟨maintenance, p⟩, hu⟩, reduction, hr⟩
    exact ⟨_, maintenance, p, reduction, hu, hr, rfl⟩

theorem calculateStored_returns_iff (regular : Regular c.horizon c.inflation) {type : ResidenceType}
    (classified : ResidenceType.classify c.circumstances.residenceType = .ok type)
    {stored : Datum} : (∃ r, calculateStored c stored = .ok r) ↔ Calculable c stored := by
  unfold calculateStored
  rw [returns_bind]
  constructor
  · rintro ⟨m, hm, hr⟩
    obtain ⟨hends, hheat⟩ := ((kept_of_read hm).returns_iff regular classified).mp hr
    refine ⟨read_returns_iff.mp ⟨m, hm⟩, ?_, hends⟩
    rw [classified]
    rintro _ ⟨⟩
    exact hheat
  · intro h
    obtain ⟨m, hm⟩ := read_returns_iff (α := α).mpr h.readable
    have hr := (kept_of_read hm).returns_iff regular classified
    exact ⟨m, hm, hr.mpr ⟨h.ends, h.heatDemand type classified⟩⟩

end Measure

/-! ## A project -/

/-- On doubles the standard settings and horizon are regular if no power of their growth factor is
beyond the largest double. -/
theorem Maintenance.regular_standard
    (finite : ∀ year : Float, Number.belowWhole year Horizon.standard.years = true →
      Growth.isInfinite
        (Float.pow (growthFactor (Settings.standard.rate .inflation)) year) = false) :
    Regular (α := Float) .standard (Settings.standard.rate .inflation) := by
  have positive :
      decide (growthFactor (Settings.standard.rate .inflation) < (0.0 : Float)) = false := by
    decide +kernel
  constructor
  · exact ⟨by decide, exists_of_isOk (by decide +kernel)⟩
  · intro year hy
    refine ⟨.real (Float.pow (growthFactor (Settings.standard.rate .inflation)) year), ?_⟩
    change (if _ && _ && decide (growthFactor (Settings.standard.rate .inflation) < (0.0 : Float))
      && _ then _ else _) = _
    rw [positive, Bool.and_false, Bool.false_and, if_neg (by decide), Growth.realPower,
      finite year hy, Bool.and_false]
    rfl

namespace Project

/-- A project is calculated exactly if each of its measures can be and the years of its horizon have a
text, and then has the results of the measures in their order. The standard settings and horizon are
regular on doubles as long as the powers of their growth factor are finite. -/
theorem calculate_returns_iff (c : Calculation α) (s : String) (measures : List Datum)
    (regular : Regular c.horizon c.inflation)
    (residence : c.circumstances.residenceType = .text s) :
    ((∃ p, Project.calculate c measures = .ok p) ↔
      (∀ stored ∈ measures, Measure.Calculable c stored) ∧
        (Datum.whole c.horizon.years).isWritable = true) ∧
    (∀ p, Project.calculate c measures = .ok p →
      List.Forall₂ (fun stored r => Measure.calculateStored c stored = .ok r) measures
        p.measures) ∧
    ((∀ year : Float, Number.belowWhole year Horizon.standard.years = true →
        Growth.isInfinite
          (Float.pow (growthFactor (Settings.standard.rate .inflation)) year) = false) →
      Regular (α := Float) .standard (Settings.standard.rate .inflation)) := by
  have classified := ResidenceType.classify_text s
  rw [← residence] at classified
  refine ⟨?_, ?_, regular_standard⟩
  · simp only [← Measure.calculateStored_returns_iff regular classified]
    rw [← mapM_returns_iff]
    unfold Project.calculate
    simp only [returns_bind, pure_eq, returns_ok, and_true, Datum.requireWritable_eq_ok_iff,
      exists_const, exists_and_right]
  · intro p hp
    obtain ⟨-, rs, hrs, rfl⟩ := calculate_eq_ok_iff.mp hp
    rw [ofResults_eq]
    exact hrs

theorem calculate_returns_beside_malformed :
    let _ : Growth ℚ := Exact.withPowers Exact.wholePower
    let boiler : Datum := .record [("name", .text "Ketel"), ("price", .real 3.0),
      ("calculation", .list [.record [("type", .text "variable"), ("value", .text "aantal")]]),
      ("cycleStart", .real 10.0), ("cycle", .real 15.0)]
    let measures : List Datum :=
      [.record [("mjob_prices", .list [boiler]), ("nuisance", .text "veel")], .whole 5]
    let c : Calculation ℚ :=
      { circumstances :=
          { context := .record [("aantal", .real 2.0)], residenceType := .text "flat" }
        inflation := 1 }
    Regular c.horizon c.inflation ∧ c.circumstances.residenceType = .text "flat" ∧
      (∀ stored ∈ measures, Measure.Calculable c stored) ∧
      ∃ p, Project.calculate c measures = .ok p ∧ p.measures.length = 2 := by
  intro _ boiler measures c
  have regular : Regular c.horizon c.inflation :=
    ⟨⟨by decide, 40, rfl⟩, fun year _ => ⟨_, rfl⟩⟩
  obtain ⟨p, hp⟩ : ∃ p, Project.calculate c measures = .ok p := exists_of_isOk (by decide +kernel)
  obtain ⟨hiff, hresults, -⟩ := calculate_returns_iff c "flat" measures regular rfl
  exact ⟨regular, rfl, (hiff.mp ⟨p, hp⟩).1, p, hp, (hresults p hp).length_eq.symm⟩

/-- With the standard settings a nuisance of 310 digits stops the calculation, and so does a job
whose cycle is lost when it is added to the start year, and a measure that is no record but a list
with a number of 4301 digits. -/
theorem calculate_stops :
    let c : Calculation Float :=
      { circumstances := { context := .record [] }, inflation := Settings.standard.rate .inflation }
    let beyond : Datum := .record [("nuisance", .whole (10 ^ 309))]
    let stuck : Datum := .record
      [("mjob_prices", .list [.record [("cycleStart", .real 39.0), ("cycle", .real 1e-20)]])]
    Project.calculate c [beyond] = .error .wholeTooLarge ∧
      Project.calculate c [stuck] = .error .unending ∧
      Project.calculate c [.list [.unwritten]] = .error .tooManyDigits := by
  intro c beyond stuck
  have hread (d : Datum) (h : d.number = .error .wholeTooLarge) :
      Measure.read (α := Float) (.record [("nuisance", d)]) = .error .wholeTooLarge := by
    change ((d.number >>= fun _ => _) >>= fun _ => _) = _
    rw [h]
    rfl
  refine ⟨?_, rfl, ?_⟩
  · have hbeyond : ¬ (Datum.whole (10 ^ 309)).InRange := by decide +kernel
    unfold Project.calculate
    rw [List.mapM_cons, Measure.calculateStored, hread _ (Datum.number_of_not_inRange hbeyond)]
    rfl
  · have hown : Mention.check (Measure.ownMentions (.list [.unwritten])) = .error .tooManyDigits :=
      if_neg (by simp [Measure.ownMentions, Mention.isWritable, Datum.isWritable,
        Datum.itemsWritable, Datum.isWritable_unwritten, Datum.isRecord, Datum.fields?])
    unfold Project.calculate
    rw [List.mapM_cons, Measure.calculateStored, Measure.read, hown]
    rfl

end Project

end Renovation
