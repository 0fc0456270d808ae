import Mathlib.Data.List.Induction
import Renovation.RunLog

set_option autoImplicit false

/-!
# The log and its history

Whatever is done to a log, in whatever order: every phase that was started or skipped is in it once,
a phase that is over stays as it is, and a phase holds what was added while it was active. Saving
ends the active phase, so a log that is saved twice is saved alike.
-/

namespace Renovation

/-! ## Entries -/

namespace Entries

variable {β : Type}

theorem map_fst_put (name : String) (value : β) (entries : Entries β) :
    (entries.put name value).map Prod.fst =
      if name ∈ entries.map Prod.fst then entries.map Prod.fst
      else entries.map Prod.fst ++ [name] := by
  induction entries with
  | nil => rfl
  | cons entry rest ih =>
    obtain ⟨k, v⟩ := entry
    rw [put]
    by_cases hk : k = name
    · simp [hk]
    · have hn : name ≠ k := fun h => hk h.symm
      rw [if_neg (by simpa using hk), List.map_cons, ih]
      by_cases hm : name ∈ rest.map Prod.fst
      · rw [if_pos hm, List.map_cons, if_pos (List.mem_cons_of_mem _ hm)]
      · rw [if_neg hm, List.map_cons, if_neg (by simp [hn, hm])]
        rfl

end Entries

def PhaseStatus.IsOver (s : PhaseStatus) : Prop := s = completed ∨ s = failed ∨ s = skipped

namespace RunLog

/-! ## What an action does -/

namespace Action

def opens : Action → Bool
  | .startPhase _ _ | .skipPhase _ _ => true
  | _ => false

/-- How a phase that is active ends with the action, if it does: with success or not, and a
message. -/
def ending? : Action → Option (Bool × Datum)
  | .startPhase _ _ => some (true, .text "Auto-completed")
  | .completePhase success message => some (success, message)
  | .save => some (true, .text "Auto-completed at save")
  | _ => none

def Stays (a : Action) : Prop := a.ending? = none

def metric? : Action → Option (String × Metric)
  | .addMetric key value description => some (key, ⟨value, description⟩)
  | _ => none

def output? : Action → Option PhaseOutput
  | .addOutput path type description => some ⟨path, type, description⟩
  | _ => none

end Action

def fill (p : Phase) : Action → Phase
  | .addMetric key value description => addMetric p key ⟨value, description⟩
  | .addOutput path type description => addOutput p ⟨path, type, description⟩
  | _ => p

def recorded? (log : RunLog) (a : Action) : Option Phase :=
  match a.ending? with
  | some (success, message) => log.current.map (closed · success message)
  | none =>
    match a with
    | .skipPhase name reason => some (skipped log.nextNumber name reason)
    | _ => none

theorem complete_current (log : RunLog) (success : Bool) (message : Datum) :
    (log.complete success message).current = none := by
  unfold complete
  cases h : log.current with
  | none => exact h
  | some p => rfl

theorem complete_phases (log : RunLog) (success : Bool) (message : Datum) :
    (log.complete success message).phases =
      log.phases ++ (log.current.map (closed · success message)).toList := by
  unfold complete
  cases log.current with
  | none => exact (List.append_nil _).symm
  | some p => rfl

theorem complete_of_idle {log : RunLog} (h : log.current = none) (success : Bool)
    (message : Datum) : log.complete success message = log := by
  unfold complete
  rw [h]

theorem apply_phases (log : RunLog) (a : Action) :
    (log.apply a).phases = log.phases ++ (log.recorded? a).toList := by
  cases a with
  | startPhase | completePhase | save => exact complete_phases log _ _
  | skipPhase name reason => rfl
  | setMetadata | addMetric | addOutput => exact (List.append_nil _).symm

theorem apply_current_of_stays (log : RunLog) {a : Action} (h : a.Stays) :
    (log.apply a).current = log.current.map (fill · a) := by
  cases a with
  | startPhase | completePhase | save => cases h
  | addMetric | addOutput => rfl
  | setMetadata | skipPhase =>
    unfold apply fill
    exact Option.map_id'.symm

theorem apply_current_start (log : RunLog) (name description : Datum) :
    (log.apply (.startPhase name description)).current =
      some { number := (log.apply (.startPhase name description)).nextNumber, name, description } :=
  rfl

theorem apply_current_of_ending {log : RunLog} {a : Action} {p : Phase} (h : ¬ a.Stays)
    (hp : (log.apply a).current = some p) : ∃ name description,
    a = .startPhase name description := by
  cases a with
  | startPhase name description => exact ⟨name, description, rfl⟩
  | completePhase | save =>
    rw [apply, complete_current] at hp
    cases hp
  | setMetadata | addMetric | addOutput | skipPhase => exact absurd rfl h

/-! ## Histories -/

theorem after_append (history more : List Action) :
    after (history ++ more) = more.foldl apply (after history) := List.foldl_append

theorem after_concat (history : List Action) (a : Action) :
    after (history ++ [a]) = (after history).apply a := after_append history [a]

theorem phases_grow (history more : List Action) :
    (after history).phases <+: (after (history ++ more)).phases := by
  induction more using List.reverseRecOn with
  | nil => simp
  | append_singleton more a ih =>
    rw [← List.append_assoc, after_concat, apply_phases]
    exact ih.trans (List.prefix_append _ _)

/-- A phase is active at the end of a history: it started after `before`, and nothing `since` then
ended it. -/
structure Active (history before : List Action) (name description : Datum) (since : List Action) :
    Prop where
  split : history = before ++ .startPhase name description :: since
  stays : ∀ a ∈ since, a.Stays

/-- A phase holds what actions add: for each name the value that was added last, the names in the
order in which they first came, and all outputs in order. -/
structure Filled (since : List Action) (p : Phase) : Prop where
  names : p.metrics.map Prod.fst = ((since.filterMap Action.metric?).map Prod.fst).eraseDups
  metrics : ∀ key, p.metrics.lookup key = (since.filterMap Action.metric?).reverse.lookup key
  outputs : p.outputs = since.filterMap Action.output?

theorem filled_nil (number : Nat) (name description : Datum) :
    Filled [] { number, name, description } := ⟨rfl, fun _ => rfl, rfl⟩

theorem fill_metrics (p : Phase) (a : Action) :
    (fill p a).metrics = a.metric?.elim p.metrics fun m => p.metrics.put m.1 m.2 := by
  cases a <;> rfl

theorem fill_outputs (p : Phase) (a : Action) :
    (fill p a).outputs = p.outputs ++ a.output?.toList := by
  cases a with
  | addOutput path type description => rfl
  | setMetadata | startPhase | addMetric | completePhase | skipPhase | save =>
    exact (List.append_nil _).symm

theorem eraseDups_concat (names : List String) (name : String) :
    (names ++ [name]).eraseDups =
      if name ∈ names.eraseDups then names.eraseDups else names.eraseDups ++ [name] := by
  rw [List.eraseDups_append]
  by_cases h : name ∈ names
  · simp [h, List.removeAll]
  · simp [h, List.removeAll, List.eraseDups_cons]

theorem Filled.concat {since : List Action} {p : Phase} (h : Filled since p) (a : Action) :
    Filled (since ++ [a]) (fill p a) := by
  have hmetrics : (since ++ [a]).filterMap Action.metric? =
      since.filterMap Action.metric? ++ a.metric?.toList := by
    rw [List.filterMap_append]
    cases hm : a.metric? <;> simp [hm]
  have houtputs : (since ++ [a]).filterMap Action.output? =
      since.filterMap Action.output? ++ a.output?.toList := by
    rw [List.filterMap_append]
    cases ho : a.output? <;> simp [ho]
  refine ⟨?_, fun key => ?_, ?_⟩
  · rw [hmetrics, fill_metrics]
    cases a.metric? with
    | none => simpa using h.names
    | some m =>
      rw [Option.elim_some, Option.toList_some, List.map_append, Entries.map_fst_put, h.names]
      exact (eraseDups_concat _ m.1).symm
  · rw [hmetrics, fill_metrics]
    cases a.metric? with
    | none => simpa using h.metrics key
    | some m =>
      rw [Option.elim_some, Option.toList_some, Entries.lookup_put, h.metrics, List.reverse_append]
      change _ = List.lookup key ((m.1, m.2) :: _)
      rw [List.lookup_cons]
      cases key == m.1 <;> rfl
  · rw [houtputs, fill_outputs, h.outputs]

/-! ## What is active -/

/-- An active phase: numbered and named when it started, filled since. -/
structure Opened (before : List Action) (name description : Datum) (since : List Action)
    (p : Phase) : Prop where
  number : p.number = (after (before ++ [.startPhase name description])).nextNumber
  name : p.name = name
  description : p.description = description
  filled : Filled since p

theorem fill_number (p : Phase) (a : Action) : (fill p a).number = p.number := by
  cases a <;> rfl

theorem Opened.concat {before since : List Action} {name description : Datum} {p : Phase}
    (h : Opened before name description since p) (a : Action) :
    Opened before name description (since ++ [a]) (fill p a) where
  number := (fill_number p a).trans h.number
  name := Eq.trans (by cases a <;> rfl) h.name
  description := Eq.trans (by cases a <;> rfl) h.description
  filled := h.filled.concat a

theorem Active.concat {history before since : List Action} {name description : Datum} {a : Action}
    (h : Active history before name description since) (stays : a.Stays) :
    Active (history ++ [a]) before name description (since ++ [a]) where
  split := by rw [h.split, List.append_assoc, List.cons_append]
  stays := by
    intro b hb
    rcases List.mem_append.mp hb with hb | hb
    · exact h.stays b hb
    · rw [List.mem_singleton.mp hb]
      exact stays

theorem opened_of_current {history : List Action} {p : Phase}
    (h : (after history).current = some p) : ∃ before name description since,
      Active history before name description since ∧ Opened before name description since p := by
  induction history using List.reverseRecOn generalizing p with
  | nil => cases h
  | append_singleton history a ih =>
    rw [after_concat] at h
    by_cases stays : a.Stays
    · rw [apply_current_of_stays _ stays] at h
      obtain ⟨q, hq, rfl⟩ := Option.map_eq_some_iff.mp h
      obtain ⟨before, name, description, since, active, opened⟩ := ih hq
      exact ⟨before, name, description, since ++ [a], active.concat stays, opened.concat a⟩
    · obtain ⟨name, description, rfl⟩ := apply_current_of_ending stays h
      rw [apply_current_start, ← after_concat] at h
      cases h
      exact ⟨history, name, description, [], ⟨rfl, nofun⟩, rfl, rfl, rfl, filled_nil _ _ _⟩

theorem isSome_current_of_stays (log : RunLog) {since : List Action} (h : ∀ a ∈ since, a.Stays) :
    (since.foldl apply log).current.isSome = log.current.isSome := by
  induction since generalizing log with
  | nil => rfl
  | cons a rest ih =>
    obtain ⟨ha, hrest⟩ := List.forall_mem_cons.mp h
    rw [List.foldl_cons, ih _ hrest, apply_current_of_stays _ ha, Option.isSome_map]

theorem current_iff_active (history : List Action) : (after history).current.isSome = true ↔
    ∃ before name description since, Active history before name description since := by
  constructor
  · intro h
    obtain ⟨p, hp⟩ := Option.isSome_iff_exists.mp h
    obtain ⟨before, name, description, since, active, -⟩ := opened_of_current hp
    exact ⟨before, name, description, since, active⟩
  · rintro ⟨before, name, description, since, active⟩
    rw [active.split, after_append, List.foldl_cons, isSome_current_of_stays _ active.stays,
      apply_current_start]
    rfl

/-! ## What is over -/

/-- How a phase came to its place in the log: it was skipped there, or it was active until an action
ended it. -/
inductive Recorded (history : List Action) (place : Nat) : Phase → Prop
  | skipped {before rest : List Action} {name reason : Datum}
      (split : history = before ++ .skipPhase name reason :: rest)
      (behind : (after before).phases.length = place) :
      Recorded history place (RunLog.skipped (place + 1) name reason)
  | ended {earlier before since rest : List Action} {name description message : Datum}
      {last : Action} {success : Bool} {p : Phase}
      (split : history = earlier ++ last :: rest)
      (active : Active earlier before name description since)
      (opened : Opened before name description since p)
      (ending : last.ending? = some (success, message))
      (behind : (after earlier).phases.length = place) :
      Recorded history place (closed p success message)

theorem Recorded.concat {history : List Action} {place : Nat} {p : Phase}
    (h : Recorded history place p) (a : Action) : Recorded (history ++ [a]) place p := by
  cases h with
  | @skipped before rest name reason split behind =>
    exact .skipped (by rw [split, List.append_assoc, List.cons_append]) behind
  | @ended earlier _ _ rest _ _ _ last _ _ split active opened ending behind =>
    exact .ended (by rw [split, List.append_assoc, List.cons_append]) active opened ending behind

theorem recorded_of_recorded? {history : List Action} {a : Action} {p : Phase}
    (h : (after history).recorded? a = some p) :
    Recorded (history ++ [a]) (after history).phases.length p := by
  unfold recorded? at h
  split at h
  · rename_i success message ending
    obtain ⟨q, hq, rfl⟩ := Option.map_eq_some_iff.mp h
    obtain ⟨before, name, description, since, active, opened⟩ := opened_of_current hq
    exact .ended rfl active opened ending rfl
  · split at h
    · cases h
      exact .skipped rfl rfl
    · cases h

theorem recorded_of_getElem? {history : List Action} {place : Nat} {p : Phase}
    (h : (after history).phases[place]? = some p) : Recorded history place p := by
  induction history using List.reverseRecOn with
  | nil => cases h
  | append_singleton history a ih =>
    rw [after_concat, apply_phases] at h
    rcases Nat.lt_or_ge place (after history).phases.length with hlt | hge
    · rw [List.getElem?_append_left hlt] at h
      exact (ih h).concat a
    · rw [List.getElem?_append_right hge] at h
      cases hq : (after history).recorded? a with
      | none =>
        rw [hq] at h
        cases h
      | some q =>
        rw [hq, Option.toList_some, List.getElem?_singleton, Option.ite_none_right_eq_some] at h
        obtain ⟨hplace, hp⟩ := h
        obtain rfl : place = (after history).phases.length := by omega
        exact recorded_of_recorded? (hq.trans hp)

theorem Recorded.status {history : List Action} {place : Nat} {p : Phase}
    (h : Recorded history place p) : p.status.IsOver := by
  cases h with
  | skipped => exact .inr (.inr rfl)
  | @ended _ _ _ _ _ _ _ _ success =>
    cases success with
    | true => exact .inl rfl
    | false => exact .inr (.inl rfl)

/-! ## How many there are -/

def size (log : RunLog) : Nat := log.phases.length + if log.current.isSome then 1 else 0

theorem size_complete (log : RunLog) (success : Bool) (message : Datum) :
    (log.complete success message).size = log.size := by
  unfold size
  rw [complete_current, complete_phases]
  cases log.current <;> simp

theorem size_apply (log : RunLog) (a : Action) :
    (log.apply a).size = log.size + if a.opens then 1 else 0 := by
  cases a with
  | startPhase name description =>
    rw [← size_complete log true (.text "Auto-completed"), apply]
    simp [size, complete_current, Action.opens]
  | completePhase | save => exact size_complete log _ _
  | setMetadata => rfl
  | addMetric | addOutput => simp [size, apply, Action.opens]
  | skipPhase =>
    simp only [size, apply, List.length_append, List.length_singleton, Action.opens, if_true]
    exact Nat.add_right_comm _ _ _

theorem size_after (history : List Action) :
    (after history).size = history.countP Action.opens := by
  induction history using List.reverseRecOn with
  | nil => rfl
  | append_singleton history a ih =>
    rw [after_concat, size_apply, ih, List.countP_append, List.countP_singleton]

theorem length_phases {log : RunLog} (h : ∀ p ∈ log.phases, p.status.IsOver) :
    log.phases.length = log.count .completed + log.count .failed + log.count .skipped := by
  unfold count
  generalize log.phases = phases at h ⊢
  induction phases with
  | nil => rfl
  | cons p rest ih =>
    obtain ⟨hp, hrest⟩ := List.forall_mem_cons.mp h
    rw [List.length_cons, ih hrest]
    rcases hp with hp | hp | hp <;> simp [hp] <;> omega

/-! ## The account of a history -/

/-- After any history of actions on an empty log:
there are as many phases, active or over, as were started or skipped;
the phases that are over stay, in their order, whatever follows;
each of them is completed, failed or skipped, and was skipped in its place or holds what was added
from its start to its end;
a phase is active if none of the actions since its start ended it, and holds what was added since;
without an active phase, adding and completing do nothing;
and saving ends the active phase, counts every phase once by its status, and leaves nothing for
saving again to change. -/
theorem after_accounts (history : List Action) :
    let log := after history
    (log.phases.length + (if log.current.isSome then 1 else 0) =
      history.countP Action.opens) ∧
    (∀ more, log.phases <+: (after (history ++ more)).phases) ∧
    (∀ p ∈ log.phases, p.status = .completed ∨ p.status = .failed ∨ p.status = .skipped) ∧
    (∀ place p, log.phases[place]? = some p → Recorded history place p) ∧
    (log.current.isSome = true ↔
      ∃ before name description since, Active history before name description since) ∧
    (∀ p, log.current = some p → ∃ before name description since,
      Active history before name description since ∧ Opened before name description since p) ∧
    (log.current = none → ∀ key value description path type success message,
      log.apply (.addMetric key value description) = log ∧
      log.apply (.addOutput path type description) = log ∧
      log.apply (.completePhase success message) = log) ∧
    let saved := after (history ++ [.save])
    saved.current = none ∧
    saved.payload.field "summary" = .record [
      ("total_phases",
        .whole (saved.count .completed + saved.count .failed + saved.count .skipped : Nat)),
      ("successful", .whole (saved.count .completed)),
      ("failed", .whole (saved.count .failed)),
      ("skipped", .whole (saved.count .skipped))] ∧
    (after (history ++ [.save, .save])).payload = saved.payload := by
  intro log
  have statuses (history : List Action) (p : Phase) (hp : p ∈ (after history).phases) :
      p.status.IsOver := by
    obtain ⟨place, hplace⟩ := List.mem_iff_getElem?.mp hp
    exact (recorded_of_getElem? hplace).status
  refine ⟨size_after history, phases_grow history, statuses history,
    fun _ _ => recorded_of_getElem?, current_iff_active history, fun _ => opened_of_current, ?_,
    ?_⟩
  · intro idle key value description path type success message
    refine ⟨?_, ?_, complete_of_idle idle success message⟩
    · rw [apply, idle]
      exact congrArg _ idle.symm
    · rw [apply, idle]
      exact congrArg _ idle.symm
  intro saved
  have idle : saved.current = none := by
    rw [show saved = (after history).apply .save from after_concat history .save]
    exact complete_current _ _ _
  refine ⟨idle, ?_, ?_⟩
  · rw [← length_phases (statuses _)]
    rfl
  · rw [show history ++ [.save, .save] = (history ++ [.save]) ++ [.save] by simp, after_concat]
    exact congrArg payload (complete_of_idle idle _ _)

end RunLog

end Renovation
