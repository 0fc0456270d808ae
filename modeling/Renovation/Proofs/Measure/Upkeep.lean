import Renovation.Measure.Result
import Renovation.Proofs.Exact.Cost
import Renovation.Proofs.Maintenance.Matching
import Renovation.Proofs.Measure.Reading
import Renovation.Proofs.PriceLine.Containment

set_option autoImplicit false

/-!
# The upkeep of a measure

Calculating a measure takes its upkeep and looks up its heat demand; nothing else can stop it. The
upkeep has three forms: a measure without jobs costs nothing, without a context there are no lines,
and else there is one line for each job. The main statement is that in the last case no job is lost:
its line stands in its place under its name, and the projection is made of one part for each job.
-/

namespace Renovation

open Outcome Maintenance

variable {α : Type} [Growth α]

namespace Measure

/-! ## How a calculation returns -/

theorem sameNames_ofJob (c : Circumstances) (jobs : List (Job α)) :
    SameNames (jobs.map (LineResult.ofJob c)) jobs := by
  induction jobs with
  | nil => exact .nil
  | cons job rest ih => exact .cons (LineResult.ofJob_name c job) ih

def pricedJobs (c : Circumstances) (m : Measure α) : List (Job α) :=
  if c.context.isNull then [] else m.jobs

omit [Growth α] in
theorem forall_mem_pricedJobs_iff {m : Measure α} {c : Circumstances}
    {P : Job α → Prop} :
    (∀ job ∈ m.pricedJobs c, P job) ↔ (c.context.isNull = false → ∀ job ∈ m.jobs, P job) := by
  unfold pricedJobs
  cases c.context.isNull <;> simp

theorem upkeep_of_jobs (c : Calculation α) {m : Measure α} (h : m.jobs ≠ []) :
    m.upkeep c =
      let jobs := m.pricedJobs c.circumstances
      projectLines c.horizon c.inflation (jobs.map (LineResult.ofJob c.circumstances))
        (jobs.map some) >>= fun p =>
          pure (Aggregate.ofItems c.circumstances LineResult.ofJob m.jobs, p) := by
  have he : m.jobs.isEmpty = false := by simpa using h
  unfold upkeep pricedJobs Aggregate.ofItems
  rw [he]
  cases c.circumstances.context.isNull <;> rfl

/-- An upkeep without jobs is nothing at all; one with jobs has a part for each that is priced. -/
theorem upkeep_eq_ok_iff {c : Calculation α} {m : Measure α} {maintenance : Aggregate α}
    {p : Projection α} : m.upkeep c = .ok (maintenance, p) ↔
      (m.jobs = [] ∧ maintenance = .noJobs ∧ p = .empty) ∨
      m.jobs ≠ [] ∧
        maintenance = Aggregate.ofItems c.circumstances LineResult.ofJob m.jobs ∧
        ∃ parts, Parts c.horizon c.inflation
          ((m.pricedJobs c.circumstances).map (LineResult.ofJob c.circumstances))
          (m.pricedJobs c.circumstances) parts p := by
  by_cases hj : m.jobs = []
  · have hu : m.upkeep c = .ok (.noJobs, .empty) := by
      unfold upkeep
      rw [hj]
      rfl
    rw [hu, Except.ok.injEq, Prod.mk.injEq]
    constructor
    · rintro ⟨rfl, rfl⟩
      exact .inl ⟨hj, rfl, rfl⟩
    · rintro (⟨_, rfl, rfl⟩ | ⟨hn, _⟩)
      · exact ⟨rfl, rfl⟩
      · exact absurd hj hn
  · have names := sameNames_ofJob c.circumstances (m.pricedJobs c.circumstances)
    rw [upkeep_of_jobs c hj]
    simp only [bind_eq_ok, projectLines_eq_ok_iff names, pure_eq, Except.ok.injEq, Prod.mk.injEq]
    constructor
    · rintro ⟨_, hp, rfl, rfl⟩
      exact .inr ⟨hj, rfl, hp⟩
    · rintro (⟨hn, _⟩ | ⟨_, rfl, hp⟩)
      · exact absurd hn hj
      · exact ⟨p, hp, rfl, rfl⟩

def result (c : Calculation α) (m : Measure α) (maintenance : Aggregate α) (p : Projection α)
    (reduction : Float) : MeasureResult α where
  name := m.name
  group := m.group
  investment := Aggregate.ofItems c.circumstances LineResult.ofLine m.lines
  maintenance := maintenance
  projection := p
  heatDemand := Number.ofDouble reduction
  nuisance := calculate.nuisanceOrZero m.nuisance
  jobs := m.jobs

theorem calculate_eq_ok_iff {c : Calculation α} {m : Measure α} {r : MeasureResult α} :
    m.calculate c = .ok r ↔ ∃ maintenance p reduction, m.upkeep c = .ok (maintenance, p) ∧
      HeatDemand.reduction (.record m.heatDemand) c.circumstances.residenceType c.buildPeriod =
        .ok reduction ∧ r = m.result c maintenance p reduction := by
  unfold calculate
  rw [bind_eq_ok]
  constructor
  · rintro ⟨⟨maintenance, p⟩, hu, h⟩
    obtain ⟨reduction, hr, h⟩ := bind_eq_ok.mp h
    exact ⟨maintenance, p, reduction, hu, hr, (Except.ok.inj h).symm⟩
  · rintro ⟨maintenance, p, reduction, hu, hr, rfl⟩
    exact ⟨(maintenance, p), hu, bind_eq_ok.mpr ⟨reduction, hr, rfl⟩⟩

/-! ## No job is lost -/

/-- The upkeep of a measure, job by job: each record that is stored is a job, each job has its line
in its place under its name, and each line its part of the projection. -/
structure JobByJob (c : Calculation α) (stored : Datum) (r : MeasureResult α) : Prop where
  jobs : List.Forall₂ (fun d job => Job.read d = .ok job)
    (storedItems (stored.field "mjob_prices")) r.jobs
  lines : r.maintenance.lines = r.jobs.map (LineResult.ofJob c.circumstances)
  names : r.maintenance.lines.map (·.name) = r.jobs.map (·.name)
  parts : ∃ parts, Parts c.horizon c.inflation r.maintenance.lines r.jobs parts r.projection
  invalid : ∀ line ∈ r.maintenance.lines, line.isValid = false →
    ∀ job, project c.horizon c.inflation line job = .ok .empty

theorem upkeep_of_context {c : Calculation α} {m : Measure α}
    (context : c.circumstances.context.isNull = false) (jobs : m.jobs ≠ [])
    {maintenance : Aggregate α} {p : Projection α} :
    m.upkeep c = .ok (maintenance, p) ↔
      maintenance = Aggregate.ofLines (m.jobs.map (LineResult.ofJob c.circumstances)) ∧
      ∃ parts, Parts c.horizon c.inflation (m.jobs.map (LineResult.ofJob c.circumstances)) m.jobs
        parts p := by
  have hpriced : m.pricedJobs c.circumstances = m.jobs := by
    rw [pricedJobs, context, if_neg (by decide)]
  have hitems : Aggregate.ofItems c.circumstances LineResult.ofJob m.jobs =
      Aggregate.ofLines (m.jobs.map (LineResult.ofJob c.circumstances)) := by
    have he : m.jobs.isEmpty = false := by simpa using jobs
    rw [Aggregate.ofItems, he, context]
    rfl
  rw [upkeep_eq_ok_iff, hpriced, hitems]
  constructor
  · rintro (⟨hn, _⟩ | ⟨_, h⟩)
    · exact absurd hn jobs
    · exact h
  · exact fun h => .inr ⟨jobs, h⟩

theorem map_name_ofJob (c : Circumstances) (jobs : List (Job α)) :
    (jobs.map (LineResult.ofJob c)).map (·.name) = jobs.map (·.name) := by
  rw [List.map_map]
  exact List.map_congr_left fun job _ => LineResult.ofJob_name c job

theorem jobByJob_of_parts {c : Calculation α} {stored : Datum} {m : Measure α}
    (kept : Kept stored m) {parts : List (Projection α)} {p : Projection α} (reduction : Float)
    (h : Parts c.horizon c.inflation (m.jobs.map (LineResult.ofJob c.circumstances)) m.jobs
      parts p) :
    JobByJob c stored (m.result c
      (Aggregate.ofLines (m.jobs.map (LineResult.ofJob c.circumstances))) p reduction) where
  jobs := kept.jobs
  lines := rfl
  names := map_name_ofJob c.circumstances m.jobs
  parts := ⟨parts, h⟩
  invalid := fun _ _ hv job => project_of_invalid c.horizon c.inflation job hv

/-- With a context and a job or more, a measure is calculated exactly if each line can be projected
with its job, the horizon can be shared and the heat demand be looked up. Then no job is lost. -/
theorem calculateStored_keeps_jobs (c : Calculation α) (stored : Datum) (m : Measure α)
    (read : Measure.read stored = .ok m) (context : c.circumstances.context.isNull = false)
    (jobs : m.jobs ≠ []) :
    ((∃ r, calculateStored c stored = .ok r) ↔
      (∀ job ∈ m.jobs, ∃ part,
        project c.horizon c.inflation (LineResult.ofJob c.circumstances job) job = .ok part) ∧
      c.horizon.Usable α ∧
      ∃ reduction, HeatDemand.reduction (.record m.heatDemand) c.circumstances.residenceType
        c.buildPeriod = .ok reduction) ∧
    ∀ r, calculateStored c stored = .ok r → r.jobs = m.jobs ∧ JobByJob c stored r := by
  have hcalculate (r : MeasureResult α) :
      calculateStored c stored = .ok r ↔ m.calculate c = .ok r := by
    rw [calculateStored, read, ok_bind]
  simp only [hcalculate, calculate_eq_ok_iff, upkeep_of_context context jobs]
  constructor
  · rw [← and_assoc, ← exists_parts_iff (LineResult.ofJob c.circumstances) m.jobs]
    constructor
    · rintro ⟨_, _, p, reduction, ⟨_, hp⟩, hr, _⟩
      exact ⟨⟨p, hp⟩, reduction, hr⟩
    · rintro ⟨⟨p, hp⟩, reduction, hr⟩
      exact ⟨_, _, p, reduction, ⟨rfl, hp⟩, hr, rfl⟩
  · rintro _ ⟨_, p, reduction, ⟨rfl, parts, hp⟩, _, rfl⟩
    exact ⟨rfl, jobByJob_of_parts (kept_of_read read) reduction hp⟩

/-- Two jobs of one name, the second with a formula that is no list, and one that is no record. -/
theorem calculateStored_keeps_namesakes :
    let _ : Growth ℚ := Exact.withPowers Exact.wholePower
    let count : Datum := .record [("type", .text "variable"), ("value", .text "aantal")]
    let boiler (formula : Datum) : Datum := .record [("name", .text "Ketel"),
      ("calculation", formula), ("price", .real 3.0), ("cycle", .real 20.0)]
    let stored : Datum := .record
      [("mjob_prices", .list [boiler (.list [count]), boiler (.text "aantal"), .whole 5])]
    let c : Calculation ℚ :=
      { circumstances := { context := .record [("aantal", .real 2.0)] }, inflation := 1 }
    ∃ m : Measure ℚ, Measure.read stored = .ok m ∧ c.circumstances.context.isNull = false ∧
      m.jobs ≠ [] ∧ ∃ r, calculateStored c stored = .ok r ∧
        r.maintenance.lines.map (·.name) = ["Ketel", "Ketel", "Unnamed"] ∧
        r.projection.warnings = [] := by
  intro _ count boiler stored c
  refine ⟨_, rfl, rfl, nofun, ?_⟩
  obtain ⟨r, hr⟩ : ∃ r, calculateStored c stored = .ok r := exists_of_isOk (by decide +kernel)
  obtain ⟨hjobs, h⟩ := (calculateStored_keeps_jobs c stored _ rfl rfl nofun).2 r hr
  obtain ⟨parts, hparts⟩ := h.parts
  refine ⟨r, hr, ?_, hparts.warnings⟩
  rw [h.names, hjobs]
  rfl

end Measure

end Renovation
