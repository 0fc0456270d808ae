import Renovation.Proofs.Project.Warnings
import Renovation.Proofs.Report.Overview

set_option autoImplicit false

/-!
# Jobs of one name

The projection takes each line with the job in its place. The overview looks the job of a line up by
its name instead, and finds the last job that has it. So where jobs share a name, all of them are
explained by the cycle of the last, and a line is explained by its own cycle only if the two cycles
read alike.
-/

namespace Renovation

open Outcome

/-! ## Texts without blanks -/

namespace Decimal

theorem blank_not_mem_digitsOf (n : ℕ) : ' ' ∉ digitsOf n := by
  intro h
  exact absurd (isDigit_of_mem_digitsOf h) (by decide)

theorem blank_not_mem_exponentText (exponent : ℤ) : ' ' ∉ (exponentText exponent).toList := by
  have hdigits := blank_not_mem_digitsOf exponent.natAbs
  unfold exponentText
  split <;> simp [hdigits]

theorem blank_not_mem_text {layout : Layout} (h : ' ' ∉ layout.whole.toList) (s : Scientific) :
    ' ' ∉ (layout.text s).toList := by
  have hdigits := blank_not_mem_digitsOf s.coefficient
  have htake (n : ℕ) : ' ' ∉ (digitsOf s.coefficient).take n := mt List.mem_of_mem_take hdigits
  have hdrop (n : ℕ) : ' ' ∉ (digitsOf s.coefficient).drop n := mt List.mem_of_mem_drop hdigits
  have htail : ' ' ∉ (digitsOf s.coefficient).tail := mt List.mem_of_mem_tail hdigits
  simp only [Layout.text]
  split
  · split <;> simp [htake, htail, blank_not_mem_exponentText]
  · split
    · simp [hdigits, h]
    · split <;> simp [htake, hdrop, hdigits]

theorem blank_not_mem_generalText (x : Float) : ' ' ∉ (generalText x).toList := by
  unfold generalText signed
  split
  · decide
  · split <;> decide
  · have htext := @blank_not_mem_text .general (by decide)
    split <;> simp [htext]

theorem append_inj_of_blank_not_mem {a b rest rest' : List Char} (ha : ' ' ∉ a) (hb : ' ' ∉ b)
    (h : a ++ ' ' :: rest = b ++ ' ' :: rest') : a = b ∧ rest = rest' := by
  have hfront {text : List Char} (hm : ' ' ∉ text) (behind : List Char) :
      (text ++ ' ' :: behind).takeWhile (· != ' ') = text := by
    rw [List.takeWhile_append_of_pos, List.takeWhile_cons_of_neg, List.append_nil]
    · decide
    · intro c hc
      have hc' : c ≠ ' ' := by
        rintro rfl
        exact hm hc
      simpa using hc'
  have hab : a = b := by
    rw [← hfront ha rest, h, hfront hb]
  subst hab
  simpa using h

end Decimal

namespace Report

open Decimal Maintenance

/-! ## Cycles that read alike -/

/-- Both jobs have no cycle, or their cycles and their costs in a year are written alike. -/
def ReadAlike (line : LineResult Float) (a b : Job Float) : Prop :=
  (a.recurs = false ∧ b.recurs = false) ∨
    a.recurs = true ∧ b.recurs = true ∧
      generalText a.cycle = generalText b.cycle ∧
      euro 2 (yearlyCost line a) = euro 2 (yearlyCost line b)

theorem explainJob_of_cycle {line : LineResult Float} {job : Job Float}
    (h : job.recurs = true) : explainJob line (some job) =
      euro 2 line.total ++ (" elke " ++ (generalText job.cycle ++
        (" jaar (" ++ (euro 2 (yearlyCost line job) ++ " per jaar)")))) := by
  rw [explainJob, Option.filter_some, if_pos h]
  simp only [String.append_assoc]
  rfl

theorem explainJob_of_no_cycle {line : LineResult Float} {job : Job Float}
    (h : job.recurs = false) :
    explainJob line (some job) = euro 2 line.total ++ " (geen cyclus)" := by
  rw [explainJob, Option.filter_some, if_neg (by simp [h])]
  rfl

theorem explainJob_ne {line : LineResult Float} {a b : Job Float}
    (ha : a.recurs = true) (hb : b.recurs = false) :
    explainJob line (some a) ≠ explainJob line (some b) := by
  rw [explainJob_of_cycle ha, explainJob_of_no_cycle hb, ne_eq, String.append_right_inj]
  intro h
  simpa using congrArg String.toList h

theorem explainJob_eq_iff {line : LineResult Float} {a b : Job Float} :
    explainJob line (some a) = explainJob line (some b) ↔ ReadAlike line a b := by
  unfold ReadAlike
  cases ha : a.recurs with
  | false =>
    cases hb : b.recurs with
    | false => simp [explainJob_of_no_cycle ha, explainJob_of_no_cycle hb]
    | true => simpa using (explainJob_ne hb ha).symm
  | true =>
    cases hb : b.recurs with
    | false => simpa using explainJob_ne ha hb
    | true =>
      rw [explainJob_of_cycle ha, explainJob_of_cycle hb, String.append_right_inj,
        String.append_right_inj]
      constructor
      · intro h
        have hlists := congrArg String.toList h
        simp only [String.toList_append] at hlists
        obtain ⟨hcycle, hrest⟩ := append_inj_of_blank_not_mem (blank_not_mem_generalText a.cycle)
          (blank_not_mem_generalText b.cycle) hlists
        refine .inr ⟨rfl, rfl, String.toList_inj.mp hcycle, ?_⟩
        simpa [String.toList_inj] using hrest
      · rintro (⟨h, -⟩ | ⟨-, -, hcycle, hcost⟩)
        · cases h
        · rw [hcycle, hcost]

/-! ## The last namesake -/

/-- The job in the second place is the last that has the name of the one in the first. -/
structure LastNamesake {α : Type} (jobs : List (Job α)) (i k : Fin jobs.length) : Prop where
  later : i ≤ k
  name : jobs[k].name = jobs[i].name
  last : ∀ l, k < l → jobs[l].name ≠ jobs[i].name

theorem LastNamesake.eq_self_iff {α : Type} {jobs : List (Job α)} {i k : Fin jobs.length}
    (h : LastNamesake jobs i k) : k = i ↔ ∀ l, i < l → jobs[l].name ≠ jobs[i].name := by
  constructor
  · rintro rfl
    exact h.last
  · intro hlast
    by_contra hne
    exact hlast k (Nat.lt_of_le_of_ne h.later fun heq => hne (Fin.ext heq.symm)) h.name

theorem exists_lastNamesake (jobs : List (Job Float)) (i : Fin jobs.length) :
    ∃ k, LastNamesake jobs i k ∧ jobNamed jobs jobs[i].name = some jobs[k] := by
  cases hfound : jobNamed jobs jobs[i].name with
  | none =>
    have hi := List.find?_eq_none.mp hfound jobs[i] (by simp)
    simp at hi
  | some job =>
    obtain ⟨hname, j, hj, rfl, hbefore⟩ := List.find?_eq_some_iff_getElem.mp hfound
    rw [List.length_reverse] at hj
    simp only [List.getElem_reverse, beq_iff_eq, Bool.not_eq_true', beq_eq_false_iff_ne]
      at hname hbefore ⊢
    -- places are counted from the end of the list
    have hlast (l : Fin jobs.length) (hl : jobs.length - 1 - j < l) :
        jobs[l].name ≠ jobs[i].name := by
      have hne := hbefore (jobs.length - 1 - l) (by omega)
      have hplace : jobs.length - 1 - (jobs.length - 1 - l) = l := by omega
      simp only [hplace] at hne
      exact hne
    refine ⟨⟨jobs.length - 1 - j, by omega⟩, ⟨?_, hname, hlast⟩, rfl⟩
    by_contra hlater
    exact hlast i (not_le.mp hlater) rfl

/-! ## The lines of the overview -/

def jobLine (line : LineResult Float) (job? : Option (Job Float)) : String :=
  s!"- {line.name}: {explainJob line job?}"

theorem jobText_eq_jobLine (jobs : List (Job Float)) (line : LineResult Float) :
    jobText jobs line = jobLine line (jobNamed jobs line.name) := rfl

theorem jobLine_eq_iff {line : LineResult Float} {a b : Job Float} :
    jobLine line (some a) = jobLine line (some b) ↔ ReadAlike line a b := by
  rw [← explainJob_eq_iff]
  exact String.append_right_inj _

theorem upkeepSection_of_no_lines (horizon : Horizon) {r : MeasureResult Float}
    (h : r.maintenance.lines = []) : upkeepSection horizon r = [] := by
  rw [upkeepSection, h]
  rfl

theorem getElem?_upkeepSection (horizon : Horizon) (r : MeasureResult Float) {i : ℕ}
    {line : LineResult Float} (h : r.maintenance.lines[i]? = some line) :
    (upkeepSection horizon r)[i + 2]? = some (jobText r.jobs line) := by
  have hsome : r.maintenance.lines.isEmpty = false := by
    cases hl : r.maintenance.lines with
    | nil => simp [hl] at h
    | cons => rfl
  obtain ⟨hi, rfl⟩ := List.getElem?_eq_some_iff.mp h
  rw [upkeepSection, hsome]
  simp [List.getElem?_append, hi]

theorem upkeepSection_infix_overviewLines {p : Project Float} {r : MeasureResult Float}
    (h : r ∈ p.measures) (budget? : Option (Budget Float))
    (label? : Option EnergyLabel.Improvement) :
    upkeepSection p.horizon r <:+: overviewLines p budget? label? := by
  have hsection : upkeepSection p.horizon r <:+: measureSection p.horizon r :=
    (List.suffix_append _ _).isInfix
  have hmeasures : measureSection p.horizon r <:+:
      p.measures.flatMap (measureSection p.horizon) :=
    List.infix_of_mem_flatten (List.mem_map_of_mem h)
  have hlines : p.measures.flatMap (measureSection p.horizon) <:+:
      overviewLines p budget? label? := List.infix_append _ _ _
  exact hsection.trans (hmeasures.trans hlines)

end Report

open Maintenance

/-! ## A calculated project -/

theorem Measure.jobByJob_of_calculateStored {α : Type} [Growth α] {c : Calculation α}
    {stored : Datum} {r : MeasureResult α} (h : calculateStored c stored = .ok r) :
    r.maintenance.lines = [] ∨ JobByJob c stored r := by
  obtain ⟨m, hread, hcalculate⟩ := bind_eq_ok.mp h
  obtain ⟨maintenance, p, reduction, hupkeep, -, rfl⟩ := calculate_eq_ok_iff.mp hcalculate
  have hlines : maintenance.lines = if c.circumstances.context.isNull then [] else
      m.jobs.map (LineResult.ofJob c.circumstances) := (maintenance_of_upkeep hupkeep).1
  cases hcontext : c.circumstances.context.isNull with
  | true => exact .inl (by rw [hcontext] at hlines; exact hlines)
  | false =>
    by_cases hjobs : m.jobs = []
    · rw [hcontext, hjobs] at hlines
      exact .inl hlines
    · obtain ⟨rfl, parts, hparts⟩ := (upkeep_of_context hcontext hjobs).mp hupkeep
      exact .inr (jobByJob_of_parts (kept_of_read hread) reduction hparts)

namespace Report

/-- The line in the first place is that of the job there, and is explained by the job in the second,
the last of its name. -/
structure Explained (c : Calculation Float) (horizon : Horizon) (r : MeasureResult Float)
    (i k : Fin r.jobs.length) : Prop where
  namesake : LastNamesake r.jobs i k
  self : k = i ↔ ∀ l, i < l → r.jobs[l].name ≠ r.jobs[i].name
  line : r.maintenance.lines[i]? = some (LineResult.ofJob c.circumstances r.jobs[i])
  text : (upkeepSection horizon r)[(i : ℕ) + 2]? =
    some (jobLine (LineResult.ofJob c.circumstances r.jobs[i]) (some r.jobs[k]))
  /-- This is its own explanation exactly if the two cycles read alike. -/
  own : jobLine (LineResult.ofJob c.circumstances r.jobs[i]) (some r.jobs[k]) =
      jobLine (LineResult.ofJob c.circumstances r.jobs[i]) (some r.jobs[i]) ↔
    ReadAlike (LineResult.ofJob c.circumstances r.jobs[i]) r.jobs[k] r.jobs[i]

theorem exists_explained {c : Calculation Float} {stored : Datum} {r : MeasureResult Float}
    (h : Measure.JobByJob c stored r) (horizon : Horizon) (i : Fin r.jobs.length) :
    ∃ k, Explained c horizon r i k := by
  obtain ⟨k, hk, hnamed⟩ := exists_lastNamesake r.jobs i
  have hline : r.maintenance.lines[i]? = some (LineResult.ofJob c.circumstances r.jobs[i]) := by
    simp [h.lines]
  refine ⟨k, hk, hk.eq_self_iff, hline, ?_, jobLine_eq_iff⟩
  rw [getElem?_upkeepSection horizon r hline, jobText_eq_jobLine, LineResult.ofJob_name, hnamed]

/-- The overview of a calculated project holds the upkeep of each measure in the section behind its
heading. A line of it is projected with the job in its place, but explained by the last job of its
name. -/
theorem overview_explains_by_last_namesake {c : Calculation Float} {measures : List Datum}
    {p : Project Float} (returns : Project.calculate c measures = .ok p)
    (budget? : Option (Budget Float)) (label? : Option EnergyLabel.Improvement) :
    (∀ r ∈ p.measures, upkeepSection p.horizon r <:+: overviewLines p budget? label?) ∧
    overview p budget? label? = ended (openingLines p budget? label?) ++
      String.join (p.measures.map fun r => ended (["", heading r, ""] ++
        r.investment.lines.map lineText ++ upkeepSection p.horizon r)) ++
      ended (warningSection p.warnings) ∧
    List.Forall₂ (fun stored r =>
        r.maintenance.lines = [] ∧ upkeepSection p.horizon r = [] ∨
          Measure.JobByJob c stored r ∧ ∀ i, ∃ k, Explained c p.horizon r i k)
      measures p.measures := by
  refine ⟨fun r hr => upkeepSection_infix_overviewLines hr budget? label?,
    overview_eq_sections p budget? label?, ?_⟩
  obtain ⟨-, rs, hrs, hp⟩ := Project.calculate_eq_ok_iff.mp returns
  have hmeasures : p.measures = rs := by rw [hp, Project.ofResults_eq]
  rw [hmeasures]
  refine hrs.imp fun stored r hr => ?_
  rcases Measure.jobByJob_of_calculateStored hr with hlines | hjobs
  · exact .inl ⟨hlines, upkeepSection_of_no_lines p.horizon hlines⟩
  · exact .inr ⟨hjobs, exists_explained hjobs p.horizon⟩

def lifts : Datum :=
  let lift (cycle : Float) : Datum := .record [("name", .text "Lift"),
    ("calculation", .list [.record [("type", .text "variable"), ("value", .text "aantal")]]),
    ("price", .real 50.0), ("cycleStart", .real 40.0), ("cycle", .real cycle)]
  .record [("name", .text "Liften"), ("mjob_prices", .list [lift 10.0, lift 20.0])]

def twoDwellings : Calculation Float :=
  { circumstances := { context := .record [("aantal", .real 2.0)] }, inflation := 2.0 }

/-- What the overview says of the first job of a measure, and what its own cycle says of it. -/
def firstJob (horizon : Horizon) (r : MeasureResult Float) : Option String × Option String :=
  ((upkeepSection horizon r)[2]?, r.maintenance.lines.head?.bind fun line =>
    r.jobs.head?.map fun job => jobLine line (some job))

theorem firstJob_lifts : ∃ p r, Project.calculate twoDwellings [lifts] = .ok p ∧
    p.measures = [r] ∧ firstJob p.horizon r =
      (some "- Lift: € 100,00 elke 20 jaar (€ 5,00 per jaar)",
        some "- Lift: € 100,00 elke 10 jaar (€ 10,00 per jaar)") := by
  obtain ⟨p, hp⟩ : ∃ p, Project.calculate twoDwellings [lifts] = .ok p :=
    exists_of_isOk (by decide +kernel)
  have hfirst : (Project.calculate twoDwellings [lifts]).toOption.map
      (fun p => p.measures.map (firstJob p.horizon)) =
        some [(some "- Lift: € 100,00 elke 20 jaar (€ 5,00 per jaar)",
          some "- Lift: € 100,00 elke 10 jaar (€ 10,00 per jaar)")] := by
    decide +kernel
  rw [hp] at hfirst
  obtain ⟨r, hr, htexts⟩ := List.map_eq_singleton_iff.mp (Option.some.inj hfirst)
  exact ⟨p, r, hp, hr, htexts⟩

theorem overview_explains_lifts : ∃ p r, Project.calculate twoDwellings [lifts] = .ok p ∧
    p.measures = [r] ∧ upkeepSection p.horizon r <:+: overviewLines p none none ∧
    Measure.JobByJob twoDwellings lifts r ∧ ∀ i, ∃ k, Explained twoDwellings p.horizon r i k := by
  obtain ⟨p, r, hp, hr, htexts⟩ := firstJob_lifts
  obtain ⟨hheld, -, hmeasures⟩ := overview_explains_by_last_namesake hp none none
  rw [hr] at hheld hmeasures
  cases hmeasures with
  | cons hjobs _ =>
    refine ⟨p, r, hp, hr, hheld r (by simp), hjobs.resolve_left fun hnone => ?_⟩
    simp [firstJob, hnone.1] at htexts

/-- The line of the first lift shows the cycle of the second. -/
theorem overview_misses_first_lift : ∃ p r line job,
    Project.calculate twoDwellings [lifts] = .ok p ∧ r ∈ p.measures ∧
    r.maintenance.lines[0]? = some line ∧ r.jobs[0]? = some job ∧
    jobLine line (some job) = "- Lift: € 100,00 elke 10 jaar (€ 10,00 per jaar)" ∧
    (upkeepSection p.horizon r)[2]? = some "- Lift: € 100,00 elke 20 jaar (€ 5,00 per jaar)" := by
  obtain ⟨p, r, hp, hr, htexts⟩ := firstJob_lifts
  obtain ⟨hshown, hown⟩ := Prod.mk.inj htexts
  obtain ⟨line, hline, hown⟩ := Option.bind_eq_some_iff.mp hown
  obtain ⟨job, hjob, hown⟩ := Option.map_eq_some_iff.mp hown
  rw [List.head?_eq_getElem?] at hline hjob
  exact ⟨p, r, line, job, hp, by simp [hr], hline, hjob, hown, hshown⟩

end Report

end Renovation
