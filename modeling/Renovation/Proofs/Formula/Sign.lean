import Renovation.Proofs.Formula.Progress

set_option autoImplicit false

/-!
# The operator in front of an operand

An evaluation writes down the last operator seen in front of each operand, and refuses a zero if
that operator divides. What is worked out is decided by the whole run of operators in front of the
operand. The two meet where it matters for safety: if the run multiplies or divides, it is that one
operator, so an operand that passed the test is never a zero that is divided by.
-/

namespace Renovation.Formula

open Outcome

variable {α : Type}

def closing {β : Type} (operator? : β → Option Operator) (run : List Operator) (xs : List β) :
    List Operator :=
  xs.foldl (fun run x => match operator? x with
    | some op => run ++ [op]
    | none => []) run

theorem closing_append {β : Type} (operator? : β → Option Operator) (run : List Operator)
    (xs ys : List β) :
    closing operator? run (xs ++ ys) = closing operator? (closing operator? run xs) ys :=
  List.foldl_append

theorem closing_concat {β : Type} (operator? : β → Option Operator) (xs : List β) (x : β) :
    closing operator? [] (xs ++ [x]) = match operator? x with
      | some op => closing operator? [] xs ++ [op]
      | none => [] := by
  rw [closing_append]
  rfl

def Progress.run (p : Progress α) : List Operator := closing Item.operator? [] p.joined

theorem Progress.joined_of_value {p : Progress α} {x : α} (h : p.items.getLast? = some (.value x)) :
    p.joined = p.items ++ [.operator p.lastOperator] := by
  rw [joined, h]

theorem Progress.joined_of_operator {p : Progress α} {op : Operator}
    (h : p.items.getLast? = some (.operator op)) : p.joined = p.items := by
  rw [joined, h]

theorem Progress.dividesNext_iff (p : Progress α) :
    p.dividesNext = true ↔ p.sign = .dividedBy := by
  rw [dividesNext, sign]
  cases p.joined.getLast? with
  | none => exact ⟨nofun, nofun⟩
  | some item =>
    cases item with
    | value x => exact ⟨nofun, nofun⟩
    | operator op =>
      cases op with
      | dividedBy => exact ⟨fun _ => rfl, fun _ => rfl⟩
      | plus | minus | times | other => exact ⟨nofun, nofun⟩

theorem Progress.sign_eq_getLast (p : Progress α) : p.sign = p.run.getLast?.getD .plus := by
  rw [sign, run]
  rcases List.eq_nil_or_concat p.joined with h | ⟨front, item, h⟩
  · rw [h]
    rfl
  · rw [h, List.concat_eq_append, closing_append, List.getLast?_append, List.getLast?_singleton]
    cases item with
    | value x => rfl
    | operator op =>
      change op = (closing Item.operator? [] front ++ [op]).getLast?.getD .plus
      rw [List.getLast?_append]
      rfl

/-- A run that multiplies or divides is the operator in front of the next operand and no more. -/
theorem Progress.effective_run_eq_sign {p : Progress α}
    (h : (Operator.effective p.run).isFactor = true) : Operator.effective p.run = p.sign := by
  have hr := Operator.isFactor_effective h
  rw [sign_eq_getLast, hr]
  rfl

variable [Number α] {aliases : Aliases} {context : Datum}

omit [Number α] in
theorem Progress.run_operator (p : Progress α) (op : Operator) :
    (p.operator op).run = closing Item.operator? [] p.items ++ [op] := by
  have h : (p.operator op).joined = p.items ++ [.operator op] :=
    joined_of_operator (by rw [operator, List.getLast?_append, List.getLast?_singleton]; rfl)
  rw [run, h, closing_append]
  rfl

theorem Progress.run_operand {p p' : Progress α} {name : String} {x : α}
    (h : p.operand name x = .ok p') : p'.run = [p.lastOperator] := by
  obtain ⟨result, _, rfl⟩ := operand_eq_ok h
  have hx : (p.joined ++ [Item.value x]).getLast? = some (.value x) := by
    rw [List.getLast?_append, List.getLast?_singleton]
    rfl
  rw [run, joined_of_value hx, closing_append, closing_append]
  rfl

/-! ## The tokens in front -/

/-- The run in front of the operand that follows these tokens. Behind an operand the last operator
seen is put in. -/
def frontRun (before : List Token) : List Operator :=
  match before.getLast? with
  | some (.operand _) => [lastOperator before]
  | _ => closing Token.operator? [] before

theorem lastOperator_concat (before : List Token) (t : Token) :
    lastOperator (before ++ [t]) = t.operator?.getD (lastOperator before) := by
  cases t with
  | operand name => simp [lastOperator, Token.operator?]
  | operator op => simp [lastOperator, Token.operator?]

theorem frontRun_operator (before : List Token) (op : Operator) :
    frontRun (before ++ [.operator op]) = closing Token.operator? [] before ++ [op] := by
  rw [frontRun, List.getLast?_append, List.getLast?_singleton]
  exact closing_append Token.operator? [] before [.operator op]

theorem frontRun_operand (before : List Token) (name : String) :
    frontRun (before ++ [.operand name]) = [lastOperator before] := by
  rw [frontRun, List.getLast?_append, List.getLast?_singleton]
  exact congrArg (fun op => [op]) (lastOperator_concat before (.operand name))

theorem getLast_frontRun (before : List Token) :
    (frontRun before).getLast?.getD .plus = lastOperator before := by
  rcases List.eq_nil_or_concat before with rfl | ⟨front, t, rfl⟩
  · rfl
  rw [List.concat_eq_append, lastOperator_concat]
  cases t with
  | operand name =>
    rw [frontRun_operand]
    rfl
  | operator op =>
    rw [frontRun_operator, List.getLast?_append]
    rfl

structure Follows (ts : List Token) (p : Progress α) : Prop where
  lastOperator : p.lastOperator = lastOperator ts
  closing : closing Item.operator? [] p.items = closing Token.operator? [] ts
  run : p.run = frontRun ts

theorem Reaches.follows {q : Progress α} {ts : List Token}
    (h : Reaches aliases context .start ts q) : Follows ts q := by
  refine h.keeps Follows ⟨rfl, rfl, rfl⟩ ?_ ?_
  · intro before p op _ hp
    refine ⟨(lastOperator_concat before (.operator op)).symm, ?_, ?_⟩
    · change Formula.closing Item.operator? [] (p.items ++ [.operator op]) = _
      rw [closing_append, closing_append, hp.closing]
      rfl
    · rw [Progress.run_operator, frontRun_operator, hp.closing]
  · intro before p p' name x _ _ hp' hp
    have hrun := Progress.run_operand hp'
    obtain ⟨result, _, rfl⟩ := operand_eq_ok hp'
    refine ⟨?_, ?_, ?_⟩
    · exact hp.lastOperator.trans (lastOperator_concat before (.operand name)).symm
    · rw [closing_append, closing_append]
      rfl
    · rw [hrun, frontRun_operand, hp.lastOperator]

theorem Reaches.sign {q : Progress α} {ts : List Token}
    (h : Reaches aliases context .start ts q) : q.sign = lastOperator ts := by
  rw [Progress.sign_eq_getLast, h.follows.run, getLast_frontRun]

/-! ## The next link -/

omit [Number α] in
theorem links_append_value (run : List Operator) (items : List (Item α)) (x : α) :
    links run (items ++ [.value x]) =
      links run items ++ [(Operator.effective (closing Item.operator? run items), x)] := by
  induction items generalizing run with
  | nil => rfl
  | cons item rest ih =>
    cases item with
    | operator op => exact ih (run ++ [op])
    | value y => exact congrArg ((Operator.effective run, y) :: ·) (ih [])

theorem chain_append_value {items : List (Item α)} (h : items ≠ []) (x : α) :
    chain (items ++ [.value x]) = ⟨(chain items).first,
      (chain items).links ++ [(Operator.effective (closing Item.operator? [] items), x)]⟩ := by
  cases items with
  | nil => exact absurd rfl h
  | cons item rest =>
    cases item with
    | value y => exact congrArg (Chain.mk y) (links_append_value [] rest x)
    | operator op =>
      exact congrArg (Chain.mk 0) (links_append_value [] (.operator op :: rest) x)

theorem Progress.chain_joined (p : Progress α) : chain p.joined = chain p.items := by
  rw [joined]
  split
  · exact chain_append_operator p.items p.lastOperator
  · rfl

theorem Progress.Settled.operand {p : Progress α} (h : p.Settled) {x : α}
    (hx : ¬ (p.sign = .dividedBy ∧ Number.isZero x = true)) (name : String) :
    ∃ p', p.operand name x = .ok p' := by
  suffices ∃ result, valueOf (p.joined ++ [.value x]) = .ok result by
    obtain ⟨result, hr⟩ := this
    exact ⟨_, by rw [Progress.operand, hr]; rfl⟩
  cases hv : valueOf (p.joined ++ [.value x]) with
  | ok result => exact ⟨result, rfl⟩
  | error fault =>
    exfalso
    rw [valueOf_eq_climb, climb_eq_error_iff] at hv
    obtain ⟨-, y, hy, hz⟩ := hv
    by_cases hj : p.joined = []
    · rw [hj] at hy
      cases hy
    · rw [chain_append_value hj, p.chain_joined] at hy
      rcases List.mem_append.mp hy with hy | hy
      · -- a division among the items so far would have stopped them, too
        have he : valueOf p.items = .error .divisionByZero := by
          rw [valueOf_eq_climb, climb_eq_error_iff]
          exact ⟨rfl, y, hy, hz⟩
        rw [h] at he
        cases he
      · obtain ⟨hop, hxy⟩ := Prod.mk.inj (List.mem_singleton.mp hy)
        have hs : p.sign = .dividedBy := by
          rw [← effective_run_eq_sign (show (Operator.effective p.run).isFactor = true by
            rw [run, ← hop]; rfl), run, ← hop]
        exact hx ⟨hs, hxy ▸ hz⟩

end Renovation.Formula
