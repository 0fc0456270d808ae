import Renovation.Proofs.Formula.Progress

set_option autoImplicit false

/-!
# The trail of steps

Every step of an evaluation is the step of a shorter evaluation: cut a formula behind one of its
operands, and what is left is evaluated with the same steps up to there and comes to the result the
last of them holds. An evaluation that fails has the steps of the tokens in front of the operand it
fails at, and these alone are evaluated without an error.
-/

namespace Renovation.Formula

variable {α : Type} [Number α] {aliases : Aliases} {context : Datum}

theorem operands_append (ts us : List Token) : operands (ts ++ us) = operands ts ++ operands us :=
  List.filterMap_append

theorem Reaches.evaluate_eq {q : Progress α} {ts : List Token}
    (h : Reaches aliases context .start ts q) :
    evaluate aliases context ts = .ok ⟨q.steps, .ok q.result⟩ :=
  evaluateFrom_eq_ok_iff.mpr (.inl ⟨q, q.result, h, h.settled settled_start, rfl⟩)

theorem Reaches.evaluate_error_eq {q : Progress α} {before : List Token} {name : String}
    {error : EvaluationError} (h : Reaches aliases context .start before q)
    (hv : operandValue aliases context q name = .ok (.error error)) (after : List Token) :
    evaluate aliases context (before ++ .operand name :: after) =
      .ok (⟨q.steps, .error error⟩ : Evaluation α) :=
  evaluateFrom_eq_ok_iff.mpr (.inr ⟨before, name, after, q, error, rfl, h, hv, rfl⟩)

theorem Reaches.take_steps {q r : Progress α} {ts us : List Token}
    (h : Reaches aliases context .start ts q) (h' : Reaches aliases context q us r) :
    r.steps.take (operands ts).length = q.steps := by
  obtain ⟨new, hnew, _⟩ := h'.steps
  rw [hnew, ← h.steps_length, List.take_left]

theorem evaluate_prefix {before after : List Token} {e : Evaluation α}
    (h : evaluate aliases context (before ++ after) = .ok e) :
    ∃ e' : Evaluation α, evaluate aliases context before = .ok e' ∧
      e'.steps = e.steps.take (operands before).length ∧
      ((operands before).length ≤ e.steps.length →
        e'.outcome = .ok ((e'.steps.getLast?.map Step.result).getD 0)) := by
  rcases evaluateFrom_eq_ok_iff.mp h with
    ⟨r, x, hr, _, rfl⟩ | ⟨front, name, back, r, error, hsplit, hr, hv, rfl⟩
  · obtain ⟨q, hq, hr⟩ := hr.exists_of_append
    exact ⟨_, hq.evaluate_eq, (hq.take_steps hr).symm, fun _ => rfl⟩
  · rcases List.append_eq_append_iff.mp hsplit with ⟨middle, rfl, _⟩ | ⟨middle, rfl, hmiddle⟩
    · obtain ⟨q, hq, hr⟩ := hr.exists_of_append
      exact ⟨_, hq.evaluate_eq, (hq.take_steps hr).symm, fun _ => rfl⟩
    · cases middle with
      | nil =>
        rw [List.append_nil]
        exact ⟨_, hr.evaluate_eq, (hr.take_steps (.done r)).symm, fun _ => rfl⟩
      | cons t middle =>
        -- the operand that fails is among those that are kept
        obtain ⟨rfl, -⟩ := List.cons.inj hmiddle
        have hlength : r.steps.length < (operands (front ++ .operand name :: middle)).length := by
          rw [operands_append, List.length_append, hr.steps_length]
          exact Nat.lt_add_of_pos_right (Nat.zero_lt_succ _)
        refine ⟨_, hr.evaluate_error_eq hv middle, ?_, ?_⟩
        · exact (List.take_of_length_le (Nat.le_of_lt hlength)).symm
        · intro hle
          exact absurd hle (Nat.not_le.mpr hlength)

/-- The trail of an evaluation that returns. Its first steps are those of the formula cut behind the
operand of the last of them, and that formula comes to the result of that step. With no error there
is one step for each operand, and the last result is the value. With an error the value is zero, and
the steps are those of the tokens in front of the operand that fails, which have no error. -/
theorem evaluate_trail (aliases : Aliases) (context : Datum) (ts : List Token) (e : Evaluation α)
    (h : evaluate aliases context ts = .ok e) :
    (∀ before name after, ts = before ++ .operand name :: after →
      ∃ e' : Evaluation α, evaluate aliases context (before ++ [.operand name]) = .ok e' ∧
        e'.steps = e.steps.take ((operands before).length + 1) ∧
        ∀ step, e.steps[(operands before).length]? = some step →
          e'.outcome = .ok step.result) ∧
    (∀ x, e.outcome = .ok x → e.steps.map Step.name = operands ts ∧
      (operands ts ≠ [] → e.steps.getLast?.map Step.result = some x)) ∧
    (∀ error, e.outcome = .error error → e.value = 0 ∧
      ∃ before name after, ts = before ++ .operand name :: after ∧
        (operands before).length = e.steps.length ∧
        evaluate aliases context (before ++ [.operand name]) =
          .ok (⟨e.steps, .error error⟩ : Evaluation α) ∧
        ∃ x, evaluate aliases context before = .ok (⟨e.steps, .ok x⟩ : Evaluation α)) := by
  refine ⟨?_, ?_, ?_⟩
  · rintro before name after rfl
    rw [List.append_cons] at h
    obtain ⟨e', he', hsteps, houtcome⟩ := evaluate_prefix h
    have hlength : (operands (before ++ [.operand name])).length = (operands before).length + 1 := by
      rw [operands_append, List.length_append]
      rfl
    rw [hlength] at hsteps houtcome
    refine ⟨e', he', hsteps, ?_⟩
    intro step hstep
    have hlt := (List.getElem?_eq_some_iff.mp hstep).choose
    rw [houtcome hlt, hsteps, List.getLast?_take, if_neg (Nat.succ_ne_zero _), Nat.add_sub_cancel,
      hstep]
    rfl
  · intro x hx
    rcases evaluateFrom_eq_ok_iff.mp h with ⟨q, y, hq, hy, rfl⟩ | ⟨_, _, _, _, _, _, _, _, rfl⟩
    · cases hx
      obtain ⟨new, hnew, hnames⟩ := hq.steps
      have hsteps : q.steps = new := hnew
      subst hsteps
      refine ⟨hnames, ?_⟩
      intro hne
      have hresult : valueOf q.items = .ok q.result := hq.settled settled_start
      cases hy.symm.trans hresult
      cases hlast : q.steps.getLast? with
      | none =>
        rw [List.getLast?_eq_none_iff] at hlast
        rw [hlast] at hnames
        exact absurd hnames.symm hne
      | some step =>
        rw [Progress.result, hlast]
        rfl
    · cases hx
  · intro error herror
    rcases evaluateFrom_eq_ok_iff.mp h with
      ⟨q, y, hq, hy, rfl⟩ | ⟨before, name, after, q, error', rfl, hq, hv, rfl⟩
    · cases herror
    · cases herror
      exact ⟨rfl, before, name, after, rfl, hq.steps_length.symm, hq.evaluate_error_eq hv [],
        q.result, hq.evaluate_eq⟩

theorem evaluate_sum_of_product :
    let context := Datum.record [("a", .real 2.0), ("b", .real 3.0), ("c", .real 4.0)]
    let sum : List Token := [.operand "a", .operator .plus, .operand "b"]
    let steps : List (Step Float) :=
      [⟨"a", 2.0, .plus, 2.0⟩, ⟨"b", 3.0, .plus, 5.0⟩, ⟨"c", 4.0, .times, 14.0⟩]
    evaluate standardAliases context (sum ++ [.operator .times, .operand "c"]) =
        .ok (⟨steps, .ok 14.0⟩ : Evaluation Float) ∧
      ∃ e : Evaluation Float, evaluate standardAliases context sum = .ok e ∧
        e.steps = steps.take 2 ∧ e.outcome = .ok 5.0 := by
  intro context sum steps
  have h : evaluate standardAliases context (sum ++ [.operator .times, .operand "c"]) =
      .ok (⟨steps, .ok 14.0⟩ : Evaluation Float) := rfl
  obtain ⟨e, he, hsteps, hresult⟩ :=
    (evaluate_trail standardAliases context _ _ h).1 [.operand "a", .operator .plus] "b" _ rfl
  exact ⟨h, e, he, hsteps, hresult _ rfl⟩

end Renovation.Formula
