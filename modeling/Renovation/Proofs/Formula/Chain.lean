import Renovation.Formula.Value
import Renovation.Proofs.Outcome

set_option autoImplicit false

/-!
# Chains

A second account of what a formula is worth. Whatever the order of its values and operators, a
formula comes down to a chain: operands with one operator between neighbours. A chain is grouped
into a sum of products and worked out from the left. The main statement is that the two passes over
a stack do the same operations in the same order, whatever the numbers are, and that they stop
exactly where the chain divides by zero.
-/

namespace Renovation.Formula

open Outcome

namespace Operator

def isFactor : Operator → Bool
  | times | dividedBy => true
  | _ => false

def isSign : Operator → Bool
  | plus | minus => true
  | _ => false

/-- The operator that counts, out of those that stand between two operands. -/
def effective : List Operator → Operator
  | [] => plus
  | [op] => op
  | run => ((run.filter isSign).getLast?).getD plus

theorem effective_cons_cons (op op' : Operator) (rest : List Operator) :
    effective (op :: op' :: rest) =
      (((op :: op' :: rest).filter isSign).getLast?).getD plus := rfl

theorem isFactor_effective {run : List Operator} (h : (effective run).isFactor = true) :
    run = [effective run] := by
  match run with
  | [] => cases h
  | [op] => rfl
  | op :: op' :: rest =>
    rw [effective_cons_cons] at h
    cases hs : ((op :: op' :: rest).filter isSign).getLast? with
    | none => rw [hs] at h; cases h
    | some sign =>
      have hm := (List.mem_filter.mp (List.mem_of_getLast? hs)).2
      rw [hs, Option.getD_some] at h
      cases sign with
      | plus | minus => cases h
      | times | dividedBy | other => cases hm

def apply {α : Type} [Number α] : Operator → α → α → Except Fault α
  | plus, x, y => .ok (x + y)
  | minus, x, y => .ok (x - y)
  | times, x, y => .ok (x * y)
  | dividedBy, x, y => divide x y
  | other _, x, y => .ok (x + y)

end Operator

variable {α : Type}

/-- An operand, and the others in order, each with the operator in front of it. -/
structure Chain (α : Type) where
  first : α
  links : List (Operator × α)

/-- The operands that follow, `run` being the operators since the last one. Operators behind the
last operand are dropped. -/
def links (run : List Operator) : List (Item α) → List (Operator × α)
  | [] => []
  | .operator op :: rest => links (run ++ [op]) rest
  | .value x :: rest => (Operator.effective run, x) :: links [] rest

variable [Number α]

/-- The chain of a formula. In front of an operator at the start there is a zero, and no formula at
all is a zero. -/
def chain (items : List (Item α)) : Chain α :=
  match start items ++ items with
  | .value x :: rest => ⟨x, links [] rest⟩
  | _ => ⟨0, []⟩

structure Term (α : Type) where
  head : α
  factors : List (Operator × α)

structure Terms (α : Type) where
  first : Term α
  others : List (Operator × Term α)

def Term.value (t : Term α) : Except Fault α :=
  t.factors.foldlM (fun x link => link.1.apply x link.2) t.head

def Terms.value (ts : Terms α) : Except Fault α := do
  let sum ← ts.first.value
  ts.others.foldlM (fun sum link => do link.1.apply sum (← link.2.value)) sum

/-- A factor sign keeps the next operand in the term, any other operator starts a term. -/
def group (x : α) : List (Operator × α) → Terms α
  | [] => ⟨⟨x, []⟩, []⟩
  | (op, y) :: rest =>
    let ts := group y rest
    if op.isFactor then ⟨⟨x, (op, y) :: ts.first.factors⟩, ts.others⟩
    else ⟨⟨x, []⟩, (op, ts.first) :: ts.others⟩

def Chain.value (c : Chain α) : Except Fault α := (group c.first c.links).value

/-! ## Working out a chain link by link -/

def close : Option (Running α) → α → α
  | none, x => x
  | some sum, x => (sum.next (.value x)).total

/-- Work out a chain whose last term is worth `x` so far. -/
def climb (sum : Option (Running α)) (x : α) : List (Operator × α) → Except Fault α
  | [] => .ok (close sum x)
  | (op, y) :: rest =>
    if op.isFactor then do climb sum (← op.apply x y) rest
    else climb (some ⟨close sum x, op = .minus⟩) y rest

omit [Number α] in
theorem group_head (x : α) (ls : List (Operator × α)) : (group x ls).first.head = x := by
  cases ls with
  | nil => rfl
  | cons link rest =>
    rw [group]
    split <;> rfl

theorem apply_of_not_isFactor (op : Operator) (h : op.isFactor = false) (sum x : α) :
    op.apply sum x = .ok (close (some ⟨sum, op = .minus⟩) x) := by
  cases op with
  | plus => rfl
  | minus => rfl
  | times => cases h
  | dividedBy => cases h
  | other symbol => rfl

theorem climb_eq_group (sum : Option (Running α)) (x v : α) (ls : List (Operator × α)) :
    climb sum v ls = (do
      let t ← (group x ls).first.factors.foldlM (fun x link => link.1.apply x link.2) v
      (group x ls).others.foldlM (fun sum link => do link.1.apply sum (← link.2.value))
        (close sum t)) := by
  induction ls generalizing sum x v with
  | nil => rfl
  | cons link rest ih =>
    obtain ⟨op, y⟩ := link
    rw [climb, group]
    cases h : op.isFactor with
    | true =>
      simp only [if_true, List.foldlM_cons, bind_assoc]
      congr 1
      funext v'
      exact ih sum y v'
    | false =>
      have hy : (group y rest).first.value =
          (group y rest).first.factors.foldlM (fun x link => link.1.apply x link.2) y := by
        rw [Term.value, group_head]
      simp only [Bool.false_eq_true, if_false, List.foldlM_nil, List.foldlM_cons, pure_eq,
        ok_bind, bind_assoc, apply_of_not_isFactor op h, hy]
      exact ih _ y y

theorem Chain.value_eq_climb (c : Chain α) : c.value = climb none c.first c.links := by
  rw [climb_eq_group none c.first c.first c.links, Chain.value, Terms.value, Term.value, group_head]
  rfl

theorem climb_eq_error_iff (sum : Option (Running α)) (x : α) (ls : List (Operator × α))
    (fault : Fault) : climb sum x ls = .error fault ↔
      fault = .divisionByZero ∧ ∃ y, (Operator.dividedBy, y) ∈ ls ∧ Number.isZero y = true := by
  induction ls generalizing sum x with
  | nil => simp [climb]
  | cons link rest ih =>
    obtain ⟨op, y⟩ := link
    cases op with
    | plus => simpa [climb, Operator.isFactor] using ih _ y
    | minus => simpa [climb, Operator.isFactor] using ih _ y
    | times => simpa [climb, Operator.isFactor, Operator.apply] using ih sum (x * y)
    | other symbol => simpa [climb, Operator.isFactor] using ih _ y
    | dividedBy =>
      simp only [climb, Operator.isFactor, Operator.apply, divide, if_true]
      cases hy : Number.isZero y with
      | true =>
        simp only [if_true, error_bind, Except.error.injEq]
        constructor
        · rintro rfl
          exact ⟨rfl, y, List.mem_cons_self, hy⟩
        · exact fun h => h.1.symm
      | false =>
        simp only [Bool.false_eq_true, if_false, ok_bind, ih]
        simp [hy]

/-! ## The two passes -/

theorem foldl_next_operators (r : Running α) (run : List Operator) :
    ((run.map Item.operator).foldl Running.next r).total = r.total := by
  induction run generalizing r with
  | nil => rfl
  | cons op rest ih =>
    rw [List.map_cons, List.foldl_cons, ih]
    cases op <;> rfl

theorem foldl_next_subtract (r : Running α) (run : List Operator) :
    ((run.map Item.operator).foldl Running.next r).subtract =
      (((run.filter Operator.isSign).getLast?.map (· == .minus)).getD r.subtract) := by
  induction run generalizing r with
  | nil => rfl
  | cons op rest ih =>
    rw [List.map_cons, List.foldl_cons, ih]
    cases op with
    | plus | minus =>
      simp only [List.filter_cons, Operator.isSign, if_true, List.getLast?_cons]
      cases (rest.filter Operator.isSign).getLast? <;> rfl
    | times | dividedBy | other => rfl

theorem foldl_next_run (t : α) (run : List Operator) :
    (run.map Item.operator).foldl Running.next ⟨t, false⟩ =
      ⟨t, Operator.effective run = .minus⟩ := by
  have ht := foldl_next_operators ⟨t, false⟩ run
  have hs := foldl_next_subtract ⟨t, false⟩ run
  generalize (run.map Item.operator).foldl Running.next ⟨t, false⟩ = r at ht hs
  obtain ⟨total, subtract⟩ := r
  change total = t at ht
  change subtract = _ at hs
  rw [ht, hs]
  congr 1
  match run with
  | [] => rfl
  | [op] => cases op <;> rfl
  | op :: op' :: rest =>
    rw [Operator.effective_cons_cons]
    cases ((op :: op' :: rest).filter Operator.isSign).getLast? with
    | none => rfl
    | some sign => cases sign <;> rfl

/-- The part of a stack below its topmost value, in reverse, is worth `sum` to what comes above. -/
def Worth (lower : List (Item α)) (sum : Option (Running α)) : Prop :=
  ∀ x above, total (lower.reverse ++ .value x :: above) =
    (above.foldl Running.next ⟨close sum x, false⟩).total

theorem worth_nil : Worth ([] : List (Item α)) none := fun _ _ => rfl

def stack (lower : List (Item α)) (x : α) (run : List Operator) : List (Item α) :=
  (run.map .operator).reverse ++ .value x :: lower

omit [Number α] in
theorem stack_concat (lower : List (Item α)) (x : α) (run : List Operator) (op : Operator) :
    stack lower x (run ++ [op]) = .operator op :: stack lower x run := by
  simp [stack]

theorem Worth.total_stack {lower : List (Item α)} {sum : Option (Running α)}
    (h : Worth lower sum) (x : α) (run : List Operator) :
    total (stack lower x run).reverse = close sum x := by
  rw [stack, List.reverse_append, List.reverse_reverse, List.reverse_cons, List.append_assoc,
    List.singleton_append, h, foldl_next_operators]

theorem Worth.stack {lower : List (Item α)} {sum : Option (Running α)} (h : Worth lower sum)
    (x : α) (run : List Operator) :
    Worth (stack lower x run) (some ⟨close sum x, Operator.effective run = .minus⟩) := by
  intro y above
  rw [Formula.stack, List.reverse_append, List.reverse_reverse, List.reverse_cons,
    List.append_assoc, List.append_assoc, List.singleton_append, h, List.foldl_append,
    foldl_next_run]
  rfl

/-- The first pass joins an operand to the value below it exactly if the run between them is a
single factor sign. -/
theorem push_value (lower : List (Item α)) (x : α) (run : List Operator) (y : α) :
    push (stack lower x run) (.value y) =
      if (Operator.effective run).isFactor then do
        return .value (← (Operator.effective run).apply x y) :: lower
      else .ok (.value y :: stack lower x run) := by
  cases h : (Operator.effective run).isFactor with
  | true =>
    obtain ⟨op, rfl⟩ : ∃ op, run = [op] := ⟨_, Operator.isFactor_effective h⟩
    cases op with
    | times | dividedBy => rfl
    | plus | minus | other => cases h
  | false =>
    simp only [Bool.false_eq_true, if_false]
    rcases List.eq_nil_or_concat run with rfl | ⟨front, op, rfl⟩
    · rfl
    rw [List.concat_eq_append] at h ⊢
    rcases List.eq_nil_or_concat front with rfl | ⟨front', op', rfl⟩
    · cases op with
      | times | dividedBy => cases h
      | plus | minus | other => rfl
    · rw [List.concat_eq_append, stack_concat, stack_concat]
      cases op <;> rfl

/-- Both passes over what follows a value come to working out the links that follow it. -/
theorem foldlM_push (items : List (Item α)) {lower : List (Item α)} {sum : Option (Running α)}
    (h : Worth lower sum) (x : α) (run : List Operator) :
    (do
      let reversed ← items.foldlM push (stack lower x run)
      return total reversed.reverse) = climb sum x (links run items) := by
  induction items generalizing lower sum x run with
  | nil =>
    rw [List.foldlM_nil, pure_bind, h.total_stack]
    rfl
  | cons item rest ih =>
    rw [List.foldlM_cons]
    cases item with
    | operator op =>
      have hpush : push (stack lower x run) (.operator op) = .ok (stack lower x (run ++ [op])) := by
        rw [stack_concat]
        rfl
      rw [hpush, ok_bind]
      exact ih h x (run ++ [op])
    | value y =>
      rw [push_value, links, climb]
      split
      · simp only [bind_assoc, pure_eq, ok_bind]
        congr 1
        funext v
        exact ih h v []
      · rw [ok_bind]
        exact ih (h.stack x run) y []

theorem foldlM_push_start {items rest : List (Item α)} {x : α}
    (h : start items ++ items = .value x :: rest) :
    items.foldlM push (start items) = rest.foldlM push (stack [] x []) := by
  cases items with
  | nil => cases h
  | cons item items =>
    cases item with
    | value y =>
      cases h
      rfl
    | operator op =>
      cases h
      rfl

theorem exists_start {items : List (Item α)} (h : items ≠ []) :
    ∃ x rest, start items ++ items = .value x :: rest := by
  cases items with
  | nil => exact absurd rfl h
  | cons item items =>
    cases item with
    | value x => exact ⟨x, items, rfl⟩
    | operator op => exact ⟨0, .operator op :: items, rfl⟩

theorem valueOf_eq_climb (items : List (Item α)) :
    valueOf items = climb none (chain items).first (chain items).links := by
  by_cases hi : items = []
  · subst hi
    rfl
  · obtain ⟨x, rest, h⟩ := exists_start hi
    rw [valueOf, foldlM_push_start h, foldlM_push rest worth_nil, chain, h]

/-- A formula is worth what its chain is worth, worked out with the same operations in the same
order, and it stops exactly if some operand of the chain is a zero that is divided by. -/
theorem valueOf_eq_chain_value (items : List (Item α)) :
    valueOf items = (chain items).value ∧
      ∀ fault, valueOf items = .error fault ↔
        fault = .divisionByZero ∧
          ∃ y, (Operator.dividedBy, y) ∈ (chain items).links ∧ Number.isZero y = true := by
  constructor
  · rw [valueOf_eq_climb, Chain.value_eq_climb]
  · intro fault
    rw [valueOf_eq_climb, climb_eq_error_iff]

end Renovation.Formula
