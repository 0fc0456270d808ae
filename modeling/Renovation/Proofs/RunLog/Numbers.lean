import Mathlib.Data.List.Basic
import Renovation.Proofs.RunLog.History

set_option autoImplicit false

/-!
# The numbers of phases

A phase takes its number when it starts, and its place in the log when it is over. The two agree as
long as no phase is skipped while another is active: a skipped phase takes the place and the number
that the active one was to have.
-/

namespace Renovation.RunLog

/-- The phases that are over are numbered by their places, counted from one, and an active phase has
a number above all of theirs. -/
structure Sequential (log : RunLog) : Prop where
  places : ∀ place p, log.phases[place]? = some p → p.number = place + 1
  active : ∀ p, log.current = some p → ∀ q ∈ log.phases, q.number < p.number

def SkipsIdle (history : List Action) : Prop :=
  ∀ before name reason rest, history = before ++ .skipPhase name reason :: rest →
    (after before).current = none

theorem skipsIdle_nil : SkipsIdle [] := by
  intro before name reason rest h
  exact absurd (congrArg List.length h) (by simp)

theorem skipsIdle_concat {history : List Action} {a : Action} :
    SkipsIdle (history ++ [a]) ↔ SkipsIdle history ∧
      ∀ name reason, a = .skipPhase name reason → (after history).current = none := by
  constructor
  · intro h
    constructor
    · rintro before name reason rest rfl
      exact h before name reason (rest ++ [a]) (by simp)
    · rintro name reason rfl
      exact h history name reason [] rfl
  · rintro ⟨hall, hlast⟩ before name reason rest h
    rcases List.eq_nil_or_concat' rest with rfl | ⟨front, b, rfl⟩
    · obtain ⟨rfl, hb⟩ := List.append_inj' h rfl
      exact hlast name reason (List.singleton_inj.mp hb)
    · have hfront : history ++ [a] = (before ++ .skipPhase name reason :: front) ++ [b] := by
        simpa using h
      exact hall before name reason front (List.append_inj' hfront rfl).1

def Numbered (phases : List Phase) : Prop :=
  ∀ place p, phases[place]? = some p → p.number = place + 1

theorem numbered_nil : Numbered [] := nofun

theorem numbered_concat {phases : List Phase} {p : Phase} :
    Numbered (phases ++ [p]) ↔ Numbered phases ∧ p.number = phases.length + 1 := by
  constructor
  · intro h
    constructor
    · intro place q hq
      have hlt := (List.getElem?_eq_some_iff.mp hq).choose
      exact h place q (by rwa [List.getElem?_append_left hlt])
    · exact h phases.length p List.getElem?_concat_length
  · rintro ⟨hall, hlast⟩ place q hq
    rcases Nat.lt_or_ge place phases.length with hlt | hge
    · rw [List.getElem?_append_left hlt] at hq
      exact hall place q hq
    · rw [List.getElem?_append_right hge, List.getElem?_singleton,
        Option.ite_none_right_eq_some] at hq
      obtain ⟨hplace, ⟨⟩⟩ := hq
      omega

/-- The phases that are over and then the active one have the numbers of their places. -/
def Fits (log : RunLog) : Prop := Numbered (log.phases ++ log.current.toList)

theorem fits_of_idle {log : RunLog} (idle : log.current = none) :
    log.Fits ↔ Numbered log.phases := by
  unfold Fits
  rw [idle, Option.toList_none, List.append_nil]

theorem fits_of_active {log : RunLog} {p : Phase} (active : log.current = some p) :
    log.Fits ↔ Numbered log.phases ∧ p.number = log.phases.length + 1 := by
  unfold Fits
  rw [active, Option.toList_some, numbered_concat]

theorem fits_complete (log : RunLog) (success : Bool) (message : Datum) :
    (log.complete success message).Fits ↔ log.Fits := by
  rw [fits_of_idle (complete_current _ _ _), complete_phases]
  cases hp : log.current with
  | none => rw [fits_of_idle hp, Option.map_none, Option.toList_none, List.append_nil]
  | some p =>
    rw [fits_of_active hp, Option.map_some, Option.toList_some, numbered_concat]
    rfl

theorem fits_fill (log : RunLog) {a : Action} (stays : a.Stays) (silent : log.recorded? a = none) :
    (log.apply a).Fits ↔ log.Fits := by
  have hphases : (log.apply a).phases = log.phases := by
    rw [apply_phases, silent, Option.toList_none, List.append_nil]
  have hcurrent := apply_current_of_stays log stays
  cases hp : log.current with
  | none =>
    rw [hp] at hcurrent
    rw [fits_of_idle hp, fits_of_idle hcurrent, hphases]
  | some p =>
    rw [hp] at hcurrent
    rw [fits_of_active hp, fits_of_active hcurrent, hphases, fill_number]

def InRange (log : RunLog) : Prop :=
  ∀ p, log.current = some p → 0 < p.number ∧ p.number ≤ log.nextNumber

theorem inRange_after (history : List Action) : (after history).InRange := by
  intro p hp
  obtain ⟨before, name, description, since, active, opened⟩ := opened_of_current hp
  have hstart : history = (before ++ [.startPhase name description]) ++ since := by
    rw [active.split, List.append_assoc, List.singleton_append]
  have hgrow := (phases_grow (before ++ [.startPhase name description]) since).length_le
  rw [opened.number, hstart]
  exact ⟨Nat.succ_pos _, Nat.succ_le_succ hgrow⟩

theorem fits_apply {log : RunLog} (inRange : log.InRange) (a : Action) :
    (log.apply a).Fits ↔
      log.Fits ∧ ∀ name reason, a = .skipPhase name reason → log.current = none := by
  cases a with
  | skipPhase name reason =>
    cases hp : log.current with
    | none =>
      have hskip : (log.apply (.skipPhase name reason)).current = none := hp
      rw [fits_of_idle hp, fits_of_idle hskip, apply, numbered_concat]
      simp [skipped, nextNumber]
    | some p =>
      -- the active phase would now need a number that it was too early for
      obtain ⟨-, hsmall⟩ := inRange p hp
      have hskip : (log.apply (.skipPhase name reason)).current = some p := hp
      rw [fits_of_active hskip]
      simp [apply, nextNumber] at hsmall ⊢
      omega
  | startPhase name description =>
    have hbefore := fits_complete log true (.text "Auto-completed")
    rw [fits_of_idle (complete_current _ _ _)] at hbefore
    rw [fits_of_active (apply_current_start log name description), ← hbefore]
    simp only [reduceCtorEq, false_implies, implies_true, and_true]
    exact and_iff_left rfl
  | completePhase | save =>
    simp only [reduceCtorEq, false_implies, implies_true, and_true]
    exact fits_complete log _ _
  | setMetadata | addMetric | addOutput =>
    simp only [reduceCtorEq, false_implies, implies_true, and_true]
    exact fits_fill log rfl rfl

theorem fits_after_iff (history : List Action) : (after history).Fits ↔ SkipsIdle history := by
  induction history using List.reverseRecOn with
  | nil => exact iff_of_true numbered_nil skipsIdle_nil
  | append_singleton history a ih =>
    rw [after_concat, fits_apply (inRange_after history), skipsIdle_concat, ih]

theorem sequential_iff_fits {log : RunLog} (inRange : log.InRange) :
    log.Sequential ↔ log.Fits := by
  cases hp : log.current with
  | none =>
    rw [fits_of_idle hp]
    refine ⟨fun h => h.places, fun h => ⟨h, fun p h => ?_⟩⟩
    rw [hp] at h
    cases h
  | some p =>
    rw [fits_of_active hp]
    constructor
    · intro h
      refine ⟨h.places, ?_⟩
      obtain ⟨hpos, hle⟩ := inRange p hp
      rcases List.eq_nil_or_concat' log.phases with hnil | ⟨front, q, hlast⟩
      · rw [nextNumber, hnil] at hle
        rw [hnil]
        exact Nat.le_antisymm hle hpos
      · have hq : q.number = front.length + 1 :=
          h.places front.length q (by rw [hlast]; exact List.getElem?_concat_length)
        have habove := h.active p hp q (by rw [hlast]; simp)
        rw [nextNumber, hlast, List.length_append, List.length_singleton] at hle
        rw [hlast, List.length_append, List.length_singleton]
        omega
    · rintro ⟨hplaces, hnumber⟩
      refine ⟨hplaces, fun p' hp' q hq => ?_⟩
      rw [hp, Option.some.injEq] at hp'
      obtain ⟨place, hplace⟩ := List.mem_iff_getElem?.mp hq
      have hlt := (List.getElem?_eq_some_iff.mp hplace).choose
      rw [← hp', hnumber, hplaces place q hplace]
      omega

/-- The numbers of a log are in order exactly if no phase was skipped while another was active. -/
theorem sequential_after_iff (history : List Action) :
    (after history).Sequential ↔ SkipsIdle history := by
  rw [sequential_iff_fits (inRange_after history), fits_after_iff]

/-- A phase that is skipped beside an active one takes its number: both are the first. -/
theorem sequential_skip_fails :
    let start : Action := .startPhase (.text "Load inputs") (.text "")
    let skip : Action := .skipPhase (.text "Energy label") (.text "")
    let log := after [start, skip, .completePhase true (.text "")]
    log.phases.map (·.number) = [1, 1] ∧ ¬ log.Sequential ∧ ¬ (after [start, skip]).Sequential := by
  intro start skip log
  refine ⟨rfl, fun h => ?_, fun h => ?_⟩
  · exact absurd (h.places 1 _ rfl) (by decide)
  · exact absurd (h.active _ rfl _ (List.mem_singleton_self _)) (by decide)

end Renovation.RunLog
