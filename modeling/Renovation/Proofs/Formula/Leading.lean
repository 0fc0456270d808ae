import Mathlib.Data.List.Chain
import Mathlib.Tactic.Linarith
import Mathlib.Tactic.Ring
import Renovation.Proofs.Exact
import Renovation.Proofs.Formula.Misplaced

set_option autoImplicit false

/-!
# The operator at the start

An operator at the start of a formula works on a zero in front of it. A reader of the operands who
does not see that operator starts from the first operand instead. How far the two readings are apart
is settled by the first product: what is read is the product where it should be its negative or
nothing at all, and whatever is added behind it is the same.
-/

namespace Renovation.Formula

open Outcome

def leading : List Token → Operator
  | .operator op :: _ => op
  | _ => .plus

/-- No two operators stand next to each other. -/
def Apart (ts : List Token) : Prop := ts.IsChain fun s t => s.operator? = none ∨ t.operator? = none

/-- What is read too much where the operator at the start is left out, by the first product. -/
def Operator.unread : Operator → ℚ → ℚ
  | plus, _ => 0
  | minus, p => 2 * p
  | _, p => p

/-! ## The first step -/

section

variable {α : Type} [Number α] {aliases : Aliases} {context : Datum}

theorem Apart.wellPlaced {ts : List Token} (h : Apart ts) : WellPlaced ts := by
  rintro before op op' name after rfl
  rcases (List.isChain_append_cons_cons.mp h).2.1 with hop | hop <;> cases hop

theorem Reaches.head_of_operand {p p' q : Progress α} {name : String} {x : α} {ts : List Token}
    (hp : p.steps = []) (hx : p.operand name x = .ok p') (h : Reaches aliases context p' ts q)
    {s : Step α} {rest : List (Step α)} (hs : q.steps = s :: rest) : s.operator = p.sign := by
  obtain ⟨new, hnew, -⟩ := h.steps
  obtain ⟨_, -, rfl⟩ := operand_eq_ok hx
  rw [hs, hp] at hnew
  obtain ⟨rfl, -⟩ := List.cons.inj hnew
  rfl

theorem Reaches.operator_of_head {ts : List Token} (apart : Apart ts) {q : Progress α}
    (h : Reaches aliases context .start ts q) {s : Step α} {rest : List (Step α)}
    (hs : q.steps = s :: rest) : s.operator = leading ts := by
  cases h with
  | done => cases hs
  | operand _ hx h => exact h.head_of_operand rfl hx hs
  | @operator _ _ op _ h =>
    cases h with
    | done => cases hs
    | operand _ hx h => exact h.head_of_operand rfl hx hs
    | operator =>
      rcases (List.isChain_cons_cons.mp apart).1 with hop | hop <;> cases hop

end

/-! ## Products and sums -/

def Chain.product {α : Type} [Number α] (c : Chain α) : Except Fault α :=
  (group c.first c.links).first.value

section

variable {α : Type}

theorem isFactor_of_mem_factors {x : α} {ls : List (Operator × α)} :
    ∀ link ∈ (group x ls).first.factors, link.1.isFactor = true := by
  induction ls generalizing x with
  | nil => exact List.forall_mem_nil _
  | cons link rest ih =>
    obtain ⟨op, y⟩ := link
    rw [group]
    split
    · rename_i hop
      exact List.forall_mem_cons.mpr ⟨hop, ih⟩
    · exact List.forall_mem_nil _

theorem isFactor_of_mem_others {x : α} {ls : List (Operator × α)} :
    ∀ link ∈ (group x ls).others, link.1.isFactor = false := by
  induction ls generalizing x with
  | nil => exact List.forall_mem_nil _
  | cons link rest ih =>
    obtain ⟨op, y⟩ := link
    rw [group]
    split
    · exact ih
    · rename_i hop
      exact List.forall_mem_cons.mpr ⟨Bool.eq_false_iff.mpr hop, ih⟩

end

def addOn (sum : ℚ) (others : List (Operator × Term ℚ)) : Except Fault ℚ :=
  others.foldlM (fun sum link => do link.1.apply sum (← link.2.value)) sum

theorem addOn_add {others : List (Operator × Term ℚ)}
    (signs : ∀ link ∈ others, link.1.isFactor = false) {sum total : ℚ}
    (h : addOn sum others = .ok total) (d : ℚ) : addOn (sum + d) others = .ok (total + d) := by
  induction others generalizing sum with
  | nil =>
    obtain rfl := Except.ok.inj h
    rfl
  | cons link rest ih =>
    obtain ⟨hsign, hrest⟩ := List.forall_mem_cons.mp signs
    obtain ⟨sum', hstep, hsum'⟩ := bind_eq_ok.mp h
    obtain ⟨t, ht, happly⟩ := bind_eq_ok.mp hstep
    have hshift : link.1.apply (sum + d) t = .ok (sum' + d) := by
      rw [apply_of_not_isFactor _ hsign, close_some] at happly ⊢
      obtain rfl := Except.ok.inj happly
      split <;> exact congrArg Except.ok (by ring)
    exact bind_eq_ok.mpr ⟨sum' + d, bind_eq_ok.mpr ⟨t, ht, hshift⟩, ih hrest hsum'⟩

theorem apply_to_zero {op : Operator} (hop : op.isFactor = true) {x y z : ℚ}
    (h : op.apply x y = .ok z) : op.apply 0 y = .ok 0 := by
  cases op with
  | plus | minus | other => cases hop
  | times => exact congrArg Except.ok (zero_mul y)
  | dividedBy =>
    rw [Operator.apply, divide] at h ⊢
    split at h
    · cases h
    · rename_i hy
      rw [if_neg hy, zero_div]

theorem foldlM_apply_zero {factors : List (Operator × ℚ)}
    (hfactors : ∀ link ∈ factors, link.1.isFactor = true) {x p : ℚ}
    (h : factors.foldlM (fun x link => link.1.apply x link.2) x = .ok p) :
    factors.foldlM (fun x link => link.1.apply x link.2) (0 : ℚ) = .ok 0 := by
  induction factors generalizing x with
  | nil => rfl
  | cons link rest ih =>
    obtain ⟨hop, hrest⟩ := List.forall_mem_cons.mp hfactors
    obtain ⟨x', hstep, hx'⟩ := bind_eq_ok.mp h
    exact bind_eq_ok.mpr ⟨0, apply_to_zero hop hstep, ih hrest hx'⟩

theorem Chain.value_eq_ok_iff {c : Chain ℚ} {v : ℚ} : c.value = .ok v ↔
    ∃ p, c.product = .ok p ∧ addOn p (group c.first c.links).others = .ok v :=
  bind_eq_ok

theorem Chain.product_eq (c : Chain ℚ) : c.product =
    (group c.first c.links).first.factors.foldlM (fun x link => link.1.apply x link.2) c.first := by
  rw [Chain.product, Term.value, group_head]

theorem Chain.exists_value {c : Chain ℚ} {op : Operator} {x : ℚ}
    (h : climb none 0 ((op, c.first) :: c.links) = .ok x) : ∃ v, c.value = .ok v := by
  cases hc : c.value with
  | ok v => exact ⟨v, rfl⟩
  | error fault =>
    -- what is divided by zero here is divided by zero behind the zero, too
    rw [Chain.value_eq_climb, climb_eq_error_iff] at hc
    obtain ⟨rfl, y, hy, hzero⟩ := hc
    have herror := (climb_eq_error_iff none 0 ((op, c.first) :: c.links) .divisionByZero).mpr
      ⟨rfl, y, List.mem_cons_of_mem _ hy, hzero⟩
    cases h.symm.trans herror

/-- The sum behind a zero is the sum of the chain, its first product put in with the operator. -/
theorem Chain.value_behind_zero (c : Chain ℚ) {op : Operator}
    (arithmetic : op.isFactor = true ∨ op.isSign = true) {x : ℚ}
    (h : climb none 0 ((op, c.first) :: c.links) = .ok x) :
    ∃ v p, c.value = .ok v ∧ c.product = .ok p ∧ v = x + op.unread p := by
  obtain ⟨v, hv⟩ := c.exists_value h
  obtain ⟨p, hp, hsum⟩ := Chain.value_eq_ok_iff.mp hv
  refine ⟨v, p, hv, hp, ?_⟩
  have hfactors := c.product_eq.symm.trans hp
  have hshift (d : ℚ) := addOn_add isFactor_of_mem_others hsum d
  have hfactor (hop : op.isFactor = true) : v = x + p := by
    rw [climb, if_pos hop] at h
    obtain ⟨z, hz, hclimb⟩ := bind_eq_ok.mp h
    obtain rfl := Except.ok.inj ((apply_to_zero hop hz).symm.trans hz)
    rw [climb_eq_group none c.first, foldlM_apply_zero isFactor_of_mem_factors hfactors] at hclimb
    have hrest : addOn 0 (group c.first c.links).others = .ok x := hclimb
    have hnone := hshift (-p)
    rw [add_neg_cancel, hrest] at hnone
    linarith [Except.ok.inj hnone]
  cases op with
  | plus =>
    have hclimb : climb (some ⟨0, false⟩) c.first c.links = .ok x := h
    rw [climb_zero zero_add, ← Chain.value_eq_climb, hv] at hclimb
    exact (Except.ok.inj hclimb).trans (add_zero x).symm
  | minus =>
    have hclimb : climb (some ⟨0, true⟩) c.first c.links = .ok x := h
    rw [climb_eq_group (some ⟨0, true⟩) c.first, hfactors] at hclimb
    have hrest : addOn (0 - p) (group c.first c.links).others = .ok x := hclimb
    have hnegative := hshift (-(2 * p))
    rw [show p + -(2 * p) = 0 - p by ring, hrest] at hnegative
    rw [Operator.unread]
    linarith [Except.ok.inj hnegative]
  | times => exact hfactor rfl
  | dividedBy => exact hfactor rfl
  | other => rcases arithmetic with hop | hop <;> cases hop

theorem isFactor_or_isSign_leading {ts : List Token}
    (arithmetic : ∀ op, Token.operator op ∈ ts → op.isFactor = true ∨ op.isSign = true) :
    (leading ts).isFactor = true ∨ (leading ts).isSign = true := by
  match ts with
  | [] => exact .inr rfl
  | .operand _ :: _ => exact .inr rfl
  | .operator op :: _ => exact arithmetic op List.mem_cons_self

def operandsOf {α : Type} (first : Step α) (rest : List (Step α)) : Chain α :=
  ⟨first.value, rest.map fun step => (step.operator, step.value)⟩

theorem value_operandsOf {aliases : Aliases} {context : Datum} {ts : List Token} (apart : Apart ts)
    (arithmetic : ∀ op, Token.operator op ∈ ts → op.isFactor = true ∨ op.isSign = true)
    {first : Step ℚ} {rest : List (Step ℚ)} {x : ℚ}
    (h : evaluate aliases context ts = .ok ⟨first :: rest, .ok x⟩) :
    ∃ v p, (operandsOf first rest).value = .ok v ∧ (operandsOf first rest).product = .ok p ∧
      v = x + (leading ts).unread p := by
  rcases evaluateFrom_eq_ok_iff.mp h with ⟨q, y, hq, hy, he⟩ | ⟨_, _, _, _, _, _, _, _, he⟩
  · obtain ⟨hsteps, hout⟩ := Evaluation.mk.inj he
    obtain rfl := Except.ok.inj hout
    have hreplay := valueOf_replay_of_wellPlaced zero_add apart.wellPlaced arithmetic hq
    rw [valueOf_replay zero_add, hy, ← hsteps, List.map_cons,
      hq.operator_of_head apart hsteps.symm] at hreplay
    exact (operandsOf first rest).value_behind_zero (isFactor_or_isSign_leading arithmetic) hreplay
  · exact nomatch (Evaluation.mk.inj he).2

end Renovation.Formula
