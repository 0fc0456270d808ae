import Renovation.Formula.Evaluation
import Renovation.Proofs.Formula.Chain

set_option autoImplicit false

/-!
# How an evaluation proceeds

`Reaches` is an evaluation without its end: it gets from one progress through some tokens to
another. Every evaluation that returns reaches either the end of its formula or the first operand
that cannot be used. What holds of the start and is kept by an operator and by an operand therefore
holds of every evaluation; the running value, the operator in front of the next operand and the run
of operators it ends are treated here.
-/

namespace Renovation.Formula

open Outcome

variable {α : Type}

namespace Token

def operand? : Token → Option String
  | operand name => some name
  | operator _ => none

def operator? : Token → Option Operator
  | operand _ => none
  | operator op => some op

end Token

def operands (ts : List Token) : List String := ts.filterMap Token.operand?

def lastOperator (ts : List Token) : Operator := ((ts.filterMap Token.operator?).getLast?).getD .plus

/-- What the formula comes to so far: the result of the last step, zero before the first. -/
def Progress.result [Zero α] (p : Progress α) : α := (p.steps.getLast?.map Step.result).getD 0

variable [Number α] {aliases : Aliases} {context : Datum}

inductive Reaches (aliases : Aliases) (context : Datum) :
    Progress α → List Token → Progress α → Prop
  | done (p : Progress α) : Reaches aliases context p [] p
  | operator {p q : Progress α} {op : Operator} {rest : List Token} :
      Reaches aliases context (p.operator op) rest q →
      Reaches aliases context p (.operator op :: rest) q
  | operand {p p' q : Progress α} {name : String} {x : α} {rest : List Token} :
      operandValue aliases context p name = .ok (.ok x) → p.operand name x = .ok p' →
      Reaches aliases context p' rest q → Reaches aliases context p (.operand name :: rest) q

namespace Reaches

theorem append {p q r : Progress α} {ts us : List Token} (h : Reaches aliases context p ts q)
    (h' : Reaches aliases context q us r) : Reaches aliases context p (ts ++ us) r := by
  induction h with
  | done p => exact h'
  | operator _ ih => exact .operator (ih h')
  | operand hx hp _ ih => exact .operand hx hp (ih h')

theorem exists_of_append {p r : Progress α} {ts us : List Token}
    (h : Reaches aliases context p (ts ++ us) r) :
    ∃ q, Reaches aliases context p ts q ∧ Reaches aliases context q us r := by
  induction ts generalizing p with
  | nil => exact ⟨p, .done p, h⟩
  | cons t rest ih =>
    cases h with
    | operator h =>
      obtain ⟨q, hq, hr⟩ := ih h
      exact ⟨q, .operator hq, hr⟩
    | operand hx hp h =>
      obtain ⟨q, hq, hr⟩ := ih h
      exact ⟨q, .operand hx hp hq, hr⟩

/-- What the start has and every operator and operand keep, every progress has. -/
theorem keeps {p q : Progress α} {ts : List Token} (h : Reaches aliases context p ts q)
    (P : List Token → Progress α → Prop) (start : P [] p)
    (operator : ∀ before p' op, Reaches aliases context p before p' → P before p' →
      P (before ++ [.operator op]) (p'.operator op))
    (operand : ∀ before p' p'' name x, Reaches aliases context p before p' →
      operandValue aliases context p' name = .ok (.ok x) → p'.operand name x = .ok p'' →
      P before p' → P (before ++ [.operand name]) p'') : P ts q := by
  suffices ∀ before p', Reaches aliases context p before p' → P before p' →
      ∀ {ts q}, Reaches aliases context p' ts q → P (before ++ ts) q by
    exact this [] p (.done p) start h
  intro before p' hp' hP ts q h
  induction h generalizing before with
  | done p' =>
    rw [List.append_nil]
    exact hP
  | operator _ ih =>
    rw [List.append_cons]
    exact ih _ (hp'.append (.operator (.done _))) (operator _ _ _ hp' hP)
  | operand hx hp _ ih =>
    rw [List.append_cons]
    exact ih _ (hp'.append (.operand hx hp (.done _))) (operand _ _ _ _ _ hp' hx hp hP)

end Reaches

theorem evaluateFrom_eq_ok_iff {p : Progress α} {ts : List Token} {e : Evaluation α} :
    evaluateFrom aliases context p ts = .ok e ↔
      (∃ q x, Reaches aliases context p ts q ∧ valueOf q.items = .ok x ∧ e = ⟨q.steps, .ok x⟩) ∨
      ∃ before name after q error, ts = before ++ .operand name :: after ∧
        Reaches aliases context p before q ∧
        operandValue aliases context q name = .ok (.error error) ∧ e = ⟨q.steps, .error error⟩ := by
  constructor
  · intro h
    induction ts generalizing p with
    | nil =>
      obtain ⟨x, hx, he⟩ := bind_eq_ok.mp h
      exact .inl ⟨p, x, .done p, hx, (Except.ok.inj he).symm⟩
    | cons t rest ih =>
      cases t with
      | operator op =>
        rcases ih h with ⟨q, x, hq, hx, he⟩ | ⟨before, name, after, q, error, rfl, hq, hv, he⟩
        · exact .inl ⟨q, x, .operator hq, hx, he⟩
        · exact .inr ⟨_ :: before, name, after, q, error, rfl, .operator hq, hv, he⟩
      | operand name =>
        obtain ⟨value, hv, h⟩ := bind_eq_ok.mp h
        cases value with
        | error error =>
          exact .inr ⟨[], name, rest, p, error, rfl, .done p, hv, (Except.ok.inj h).symm⟩
        | ok x =>
          obtain ⟨p', hp, h⟩ := bind_eq_ok.mp h
          rcases ih h with ⟨q, y, hq, hy, he⟩ | ⟨before, name', after, q, error, rfl, hq, hv', he⟩
          · exact .inl ⟨q, y, .operand hv hp hq, hy, he⟩
          · exact .inr ⟨_ :: before, name', after, q, error, rfl, .operand hv hp hq, hv', he⟩
  · rintro (⟨q, x, hq, hx, rfl⟩ | ⟨before, name, after, q, error, rfl, hq, hv, rfl⟩)
    · induction hq with
      | done p => rw [evaluateFrom, hx]; rfl
      | operator _ ih => exact ih hx
      | operand hv hp _ ih =>
        rw [evaluateFrom, hv, ok_bind]
        simp only [hp, ok_bind]
        exact ih hx
    · induction hq with
      | done p => rw [List.nil_append, evaluateFrom, hv]; rfl
      | operator _ ih => exact ih hv
      | operand hv' hp _ ih =>
        rw [List.cons_append, evaluateFrom, hv', ok_bind]
        simp only [hp, ok_bind]
        exact ih hv

theorem operand_eq_ok {p p' : Progress α} {name : String} {x : α}
    (h : p.operand name x = .ok p') : ∃ result, valueOf (p.joined ++ [.value x]) = .ok result ∧
      p' = ⟨p.joined ++ [.value x], p.steps ++ [⟨name, x, p.sign, result⟩], p.lastOperator⟩ := by
  obtain ⟨result, hr, hp⟩ := bind_eq_ok.mp h
  exact ⟨result, hr, (Except.ok.inj hp).symm⟩

/-! ## Steps -/

theorem Reaches.steps {p q : Progress α} {ts : List Token} (h : Reaches aliases context p ts q) :
    ∃ new, q.steps = p.steps ++ new ∧ new.map Step.name = operands ts := by
  induction h with
  | done p => exact ⟨[], (List.append_nil _).symm, rfl⟩
  | operator _ ih => exact ih
  | @operand p p' q name x rest _ hp _ ih =>
    obtain ⟨new, hnew, hnames⟩ := ih
    obtain ⟨result, _, rfl⟩ := operand_eq_ok hp
    refine ⟨⟨name, x, p.sign, result⟩ :: new, ?_, ?_⟩
    · rw [hnew, List.append_assoc, List.singleton_append]
    · rw [List.map_cons, hnames]
      rfl

theorem Reaches.steps_length {q : Progress α} {ts : List Token}
    (h : Reaches aliases context .start ts q) : q.steps.length = (operands ts).length := by
  obtain ⟨new, hnew, hnames⟩ := h.steps
  rw [hnew, ← hnames, List.length_map]
  rfl

/-! ## The running value -/

omit [Number α] in
theorem links_append_operator (run : List Operator) (items : List (Item α)) (op : Operator) :
    links run (items ++ [.operator op]) = links run items := by
  induction items generalizing run with
  | nil => rfl
  | cons item rest ih =>
    cases item with
    | operator op' => exact ih (run ++ [op'])
    | value x => exact congrArg ((Operator.effective run, x) :: ·) (ih [])

theorem chain_append_operator (items : List (Item α)) (op : Operator) :
    chain (items ++ [.operator op]) = chain items := by
  cases items with
  | nil => rfl
  | cons item rest =>
    cases item with
    | value x => exact congrArg (Chain.mk x) (links_append_operator [] rest op)
    | operator op' =>
      exact congrArg (Chain.mk 0) (links_append_operator [] (.operator op' :: rest) op)

theorem valueOf_append_operator (items : List (Item α)) (op : Operator) :
    valueOf (items ++ [.operator op]) = valueOf items := by
  rw [valueOf_eq_climb, valueOf_eq_climb, chain_append_operator]

/-- The items so far come to the running value. -/
def Progress.Settled (p : Progress α) : Prop := valueOf p.items = .ok p.result

theorem settled_start : (Progress.start : Progress α).Settled := rfl

theorem Reaches.settled {p q : Progress α} {ts : List Token} (h : Reaches aliases context p ts q)
    (hp : p.Settled) : q.Settled := by
  refine h.keeps (fun _ p => p.Settled) hp ?_ ?_
  · intro _ p op _ hp
    exact (valueOf_append_operator p.items op).trans hp
  · intro _ p p' name x _ _ hp' _
    obtain ⟨result, hr, rfl⟩ := operand_eq_ok hp'
    rw [Progress.Settled, hr, Progress.result, List.getLast?_append, List.getLast?_singleton]
    rfl

end Renovation.Formula
