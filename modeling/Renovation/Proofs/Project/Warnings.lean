import Renovation.Project.Notes
import Renovation.Proofs.Exact.Cost
import Renovation.Proofs.Measure.Upkeep
import Renovation.Proofs.PriceLine.Aggregate
import Renovation.Proofs.Project.Totals

set_option autoImplicit false

/-!
# The warnings of a project

Each line without a price is heard of once, in its place: the warnings of a project name, measure by
measure, first the lines of the work and then the jobs that failed. A line that fails takes the
price of its whole measure with it, a job never does. The projection of the jobs could add warnings
of its own, but no job is ever without its line.
-/

namespace Renovation

open Outcome Maintenance

variable {α : Type}

def MeasureResult.lines (r : MeasureResult α) : List (LineResult α) :=
  r.investment.lines ++ r.maintenance.lines

namespace Measure

section

variable [Number α] (c : Circumstances) (m : Measure α)

/-- Why lines of the measure have no price: first those of the work, then the jobs. -/
def failures : List (LineFailure α) := (m.priced c).filterMap (PriceLine.failure? c)

/-- The work cannot be priced: it has no lines, there is no context, or one of the lines fails. -/
def Unpriced : Prop :=
  m.lines = [] ∨ c.context.isNull = true ∨ ∃ line ∈ m.lines, (line.failure? c).isSome = true

instance : Decidable (m.Unpriced c) := inferInstanceAs (Decidable (_ ∨ _ ∨ _))

theorem isValid_eq_false_iff :
    (Aggregate.ofItems c LineResult.ofLine m.lines).isValid = false ↔ m.Unpriced c := by
  rw [← Bool.not_eq_true, Aggregate.isValid_ofItems_iff, Unpriced]
  simp only [LineResult.ofLine_isValid, Option.isNone_iff_eq_none, Option.isSome_iff_ne_none]
  grind

end

/-- What a calculated measure says of the lines that fail: each is named once in its warnings, and
has its error in its place among the lines. -/
structure Reported [Number α] (c : Circumstances) (m : Measure α) (r : MeasureResult α) : Prop where
  name : r.name = m.name
  warnings : r.warnings = (m.failures c).map LineFailure.message
  errors : Aggregate.errors r.lines = (m.failures c).map LineFailure.message
  invalid : (r.lines.filter (!·.isValid)).length = (m.failures c).length
  isValid : r.isValid = false ↔ m.Unpriced c

variable [Growth α]

theorem maintenance_of_upkeep {c : Calculation α} {m : Measure α} {maintenance : Aggregate α}
    {p : Projection α} (h : m.upkeep c = .ok (maintenance, p)) :
    maintenance.lines = (if c.circumstances.context.isNull then [] else
      m.jobs.map (LineResult.ofJob c.circumstances)) ∧
    maintenance.warnings = maintenance.lines.flatMap (·.warnings) ∧ p.warnings = [] := by
  rcases upkeep_eq_ok_iff.mp h with ⟨hj, rfl, rfl⟩ | ⟨_, rfl, _, hp⟩
  · refine ⟨?_, rfl, rfl⟩
    rw [hj]
    cases c.circumstances.context.isNull <;> rfl
  · exact ⟨Aggregate.lines_ofItems _ _ _, Aggregate.warnings_ofItems _ _ _, hp.warnings⟩

theorem lines_of_calculate {c : Calculation α} {m : Measure α} {r : MeasureResult α}
    (h : m.calculate c = .ok r) :
    r.lines = (m.priced c.circumstances).map (LineResult.ofLine c.circumstances) := by
  obtain ⟨maintenance, p, reduction, hu, -, rfl⟩ := calculate_eq_ok_iff.mp h
  obtain ⟨hlines, -, -⟩ := maintenance_of_upkeep hu
  change (Aggregate.ofItems c.circumstances LineResult.ofLine m.lines).lines ++
    maintenance.lines = _
  rw [Aggregate.lines_ofItems, hlines, priced]
  cases c.circumstances.context.isNull with
  | true => rfl
  | false =>
    rw [if_neg (by decide), if_neg (by decide), if_neg (by decide), List.map_append, List.map_map]
    rfl

theorem warnings_of_calculate {c : Calculation α} {m : Measure α} {r : MeasureResult α}
    (h : m.calculate c = .ok r) : r.warnings = r.lines.flatMap (·.warnings) := by
  obtain ⟨maintenance, p, reduction, hu, -, rfl⟩ := calculate_eq_ok_iff.mp h
  obtain ⟨-, hwarnings, hp⟩ := maintenance_of_upkeep hu
  change (Aggregate.ofItems c.circumstances LineResult.ofLine m.lines).warnings ++
    maintenance.warnings ++ p.warnings = (_ ++ maintenance.lines).flatMap _
  rw [Aggregate.warnings_ofItems, hwarnings, hp, List.append_nil, List.flatMap_append]
  rfl

theorem reported_of_calculate {c : Calculation α} {m : Measure α} {r : MeasureResult α}
    (h : m.calculate c = .ok r) : Reported c.circumstances m r := by
  have hlines := lines_of_calculate h
  have hwarnings := warnings_of_calculate h
  obtain ⟨maintenance, p, reduction, -, -, rfl⟩ := calculate_eq_ok_iff.mp h
  refine ⟨rfl, ?_, ?_, ?_, isValid_eq_false_iff c.circumstances m⟩
  · rw [hwarnings, hlines, Aggregate.flatMap_warnings_map_ofLine, failures]
  · rw [hlines, Aggregate.errors_map_ofLine, failures]
  · rw [hlines, Aggregate.length_filter_invalid, failures]

end Measure

namespace Project

variable [Growth α]

/-- Every warning of a project is one line that fails, in the order of the measures and of their
lines and jobs, under the name of its measure; so there are as many as there are invalid lines. The
invalid measures are those whose work cannot be priced, in their order. -/
theorem calculate_warnings (c : Calculation α) (measures : List Datum) (p : Project α)
    (returns : Project.calculate c measures = .ok p) :
    ∃ ms : List (Measure α),
      List.Forall₂ (fun stored m => Measure.read stored = .ok m) measures ms ∧
      List.Forall₂ (fun m r => m.calculate c = .ok r) ms p.measures ∧
      (p.warnings = ms.flatMap fun m =>
        (m.failures c.circumstances).map fun failure => s!"{m.name}: {failure.message}") ∧
      (p.warnings = p.measures.flatMap fun r =>
        (Aggregate.errors r.lines).map fun error => s!"{r.name}: {error}") ∧
      p.warnings.length = ((p.measures.flatMap (·.lines)).filter (!·.isValid)).length ∧
      p.invalidMeasures =
        (ms.filter fun m => decide (m.Unpriced c.circumstances)).map (·.name) := by
  obtain ⟨-, rs, hrs, rfl⟩ := calculate_eq_ok_iff.mp returns
  obtain ⟨ms, hms, hcalc⟩ := exists_measures hrs
  have hreported : List.Forall₂ (Measure.Reported c.circumstances) ms rs :=
    hcalc.imp fun _ _ => Measure.reported_of_calculate
  have hlength : (ms.map fun m => (m.failures c.circumstances).length) =
      rs.map fun r => (r.lines.filter (!·.isValid)).length :=
    map_eq_of_forall₂ hreported fun _ _ h => h.invalid.symm
  rw [ofResults_eq, invalidMeasures]
  dsimp only
  have hwarnings : (rs.flatMap fun r => r.warnings.map fun message => s!"{r.name}: {message}") =
      ms.flatMap fun m => (m.failures c.circumstances).map fun failure =>
        s!"{m.name}: {failure.message}" :=
    (flatMap_eq_of_forall₂ hreported fun _ _ h => by
      rw [h.warnings, h.name, List.map_map]
      rfl).symm
  refine ⟨ms, hms, hcalc, hwarnings, ?_, ?_, ?_⟩
  · rw [hwarnings]
    refine flatMap_eq_of_forall₂ hreported fun _ _ h => ?_
    rw [h.errors, h.name, List.map_map]
    rfl
  · rw [hwarnings, List.filter_flatMap, List.length_flatMap, List.length_flatMap, ← hlength]
    simp only [List.length_map]
  · have hinvalid : List.Forall₂ (Measure.Reported c.circumstances)
        (ms.filter fun m => decide (m.Unpriced c.circumstances)) (rs.filter (!·.isValid)) :=
      List.rel_filter (fun _ _ h => by simp [← h.isValid]) hreported
    exact (map_eq_of_forall₂ hinvalid fun _ _ h => h.name.symm).symm

theorem calculate_warns_of_failures :
    let _ : Growth ℚ := Exact.withPowers Exact.wholePower
    let item (formula : List Formula.Token) : Datum := .record
      [("calculation", Formula.stored formula), ("price", .real 3.0), ("cycle", .real 2.0)]
    let count := item [.operand "aantal"]
    let share := item [.operand "aantal", .operator .dividedBy, .operand "nul"]
    let roof : Datum := .record [("name", .text "Dak"), ("measure_prices", .list [count, share]),
      ("mjob_prices", .list [share, count])]
    let wall : Datum := .record
      [("measure_prices", .list [count]), ("mjob_prices", .list [.whole 5])]
    let c : Calculation ℚ :=
      { circumstances := { context := .record [("aantal", .real 2.0), ("nul", .real 0.0)] }
        inflation := 100, horizon := ⟨3⟩ }
    ∃ p, Project.calculate c [roof, wall] = .ok p ∧ p.invalidMeasures = ["Dak"] ∧
      p.warnings = ["Dak: Deling door nul bij nul", "Dak: Deling door nul bij nul",
        "Unnamed: Fout in berekening: Ongeldige prijsregel: 5"] ∧
      ((p.measures.flatMap (·.lines)).filter (!·.isValid)).length = 3 := by
  intro _ item count share roof wall c
  obtain ⟨p, hp⟩ : ∃ p, Project.calculate c [roof, wall] = .ok p :=
    exists_of_isOk (by decide +kernel)
  have hlists : (p.invalidMeasures, p.warnings) = (["Dak"], ["Dak: Deling door nul bij nul",
      "Dak: Deling door nul bij nul", "Unnamed: Fout in berekening: Ongeldige prijsregel: 5"]) := by
    have h : (Project.calculate c [roof, wall]).toOption.map
        (fun p => (p.invalidMeasures, p.warnings)) = some (["Dak"],
          ["Dak: Deling door nul bij nul", "Dak: Deling door nul bij nul",
            "Unnamed: Fout in berekening: Ongeldige prijsregel: 5"]) := by
      decide +kernel
    rw [hp] at h
    exact Option.some.inj h
  obtain ⟨hinvalid, hwarnings⟩ := Prod.mk.inj hlists
  obtain ⟨_, _, _, _, _, hlength, _⟩ := calculate_warnings c [roof, wall] p hp
  refine ⟨p, hp, hinvalid, hwarnings, ?_⟩
  rw [← hlength, hwarnings]
  rfl

end Project

end Renovation
