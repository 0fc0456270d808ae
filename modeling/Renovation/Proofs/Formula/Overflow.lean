import Renovation.Proofs.Decimal.Overflow
import Renovation.Proofs.Formula.Exact

set_option autoImplicit false

/-!
# Formulas that leave the range

The operations of a formula in the order in which they are worked out, each with the doubles that it
is done on. The operands of a formula are finite, and what is not finite is never divided by, so the
value is finite exactly if no operation on the way overflows.
-/

namespace Renovation.Formula

open Decimal Outcome

structure Operation where
  left : Float
  operator : Operator
  right : Float

namespace Operation

def result (o : Operation) : Float :=
  match o.operator with
  | .plus | .other _ => o.left + o.right
  | .minus => o.left - o.right
  | .times => o.left * o.right
  | .dividedBy => o.left / o.right

def exact (o : Operation) : ℚ :=
  match o.operator with
  | .plus | .other _ => Number.ofDouble o.left + Number.ofDouble o.right
  | .minus => Number.ofDouble o.left - Number.ofDouble o.right
  | .times => Number.ofDouble o.left * Number.ofDouble o.right
  | .dividedBy => Number.ofDouble o.left / Number.ofDouble o.right

/-- Two finite doubles have a result that no finite double is nearest to. -/
def Overflows (o : Operation) : Prop :=
  Datum.isFinite o.left = true ∧ Datum.isFinite o.right = true ∧ rangeEnd ≤ |o.exact|

def Divides (o : Operation) : Prop :=
  o.operator = .dividedBy → Datum.isFinite o.right = true ∧ Number.isZero o.right = false

theorem isFinite_result_iff {o : Operation} (hdivides : o.Divides) :
    Datum.isFinite o.result = true ↔
      Datum.isFinite o.left = true ∧ Datum.isFinite o.right = true ∧ ¬ o.Overflows := by
  obtain ⟨x, op, y⟩ := o
  have hoperands (h : Datum.isFinite (Operation.mk x op y).result = true) :
      Datum.isFinite x = true ∧ Datum.isFinite y = true := by
    cases op with
    | plus | other => exact isFinite_of_add h
    | minus => exact isFinite_of_sub h
    | times => exact isFinite_of_mul h
    | dividedBy =>
      obtain ⟨hy, -⟩ := hdivides rfl
      exact ⟨isFinite_of_div hy h, hy⟩
  have hrange (hx : Datum.isFinite x = true) (hy : Datum.isFinite y = true) :
      Datum.isFinite (Operation.mk x op y).result = true ↔ |(Operation.mk x op y).exact| < rangeEnd := by
    cases op with
    | plus | other => exact isFinite_add_iff hx hy
    | minus => exact isFinite_sub_iff hx hy
    | times => exact isFinite_mul_iff hx hy
    | dividedBy =>
      have hne : (Number.ofDouble y : ℚ) ≠ 0 := by
        intro hzero
        have hsame : Number.isZero y = Number.isZero (Number.ofDouble y : ℚ) := sameZeros_exact y hy
        rw [(hdivides rfl).2, (Exact.isZero_iff _).mpr hzero] at hsame
        cases hsame
      exact isFinite_div_iff hx hy hne
  constructor
  · intro h
    obtain ⟨hx, hy⟩ := hoperands h
    exact ⟨hx, hy, fun hover => ((hrange hx hy).mp h).not_ge hover.2.2⟩
  · rintro ⟨hx, hy, hfits⟩
    rw [hrange hx hy]
    by_contra hge
    exact hfits ⟨hx, hy, not_lt.mp hge⟩

end Operation

theorem apply_eq_ok {op : Operator} {x y v : Float} (h : op.apply x y = .ok v) :
    v = (Operation.mk x op y).result ∧ (op = .dividedBy → Number.isZero y = false) := by
  cases op with
  | plus | minus | times | other => exact ⟨(Except.ok.inj h).symm, nofun⟩
  | dividedBy =>
    change (if Number.isZero y then _ else _) = _ at h
    split at h
    · cases h
    · rename_i hzero
      exact ⟨(Except.ok.inj h).symm, fun _ => Bool.not_eq_true _ ▸ hzero⟩

/-! ## The operations of a chain -/

def addition : Option (Running Float) → Float → List Operation
  | none, _ => []
  | some sum, x => [⟨sum.total, if sum.subtract then .minus else .plus, x⟩]

/-- In step with `climb`. -/
def operations (sum : Option (Running Float)) (x : Float) :
    List (Operator × Float) → List Operation
  | [] => addition sum x
  | (op, y) :: rest =>
    if op.isFactor then ⟨x, op, y⟩ :: operations sum (Operation.mk x op y).result rest
    else addition sum x ++ operations (some ⟨close sum x, op = .minus⟩) y rest

def Chain.operations (c : Chain Float) : List Operation := Formula.operations none c.first c.links

def FiniteSum (sum : Option (Running Float)) : Prop :=
  ∀ s ∈ sum, Datum.isFinite s.total = true

theorem isFinite_close_iff (sum : Option (Running Float)) (x : Float) :
    Datum.isFinite (close sum x) = true ↔
      FiniteSum sum ∧ Datum.isFinite x = true ∧ ∀ o ∈ addition sum x, ¬ o.Overflows := by
  cases sum with
  | none => simp [close, addition, FiniteSum]
  | some sum =>
    let o : Operation := ⟨sum.total, if sum.subtract then .minus else .plus, x⟩
    have hclose : close (some sum) x = o.result := by
      obtain ⟨total, subtract⟩ := sum
      cases subtract <;> rfl
    have hdivides : o.Divides := by
      intro h
      cases hs : sum.subtract <;> simp [o, hs] at h
    rw [hclose, Operation.isFinite_result_iff hdivides]
    simp [addition, FiniteSum, o]

/-- Whatever a chain is worth so far, it comes to a finite value exactly if that is finite and none
of the operations that are left overflows. -/
theorem isFinite_climb_iff {sum : Option (Running Float)} {x v : Float}
    {ls : List (Operator × Float)} (hlinks : ∀ link ∈ ls, Datum.isFinite link.2 = true)
    (h : climb sum x ls = .ok v) :
    Datum.isFinite v = true ↔
      FiniteSum sum ∧ Datum.isFinite x = true ∧ ∀ o ∈ operations sum x ls, ¬ o.Overflows := by
  induction ls generalizing sum x with
  | nil =>
    obtain rfl := Except.ok.inj h
    exact isFinite_close_iff sum x
  | cons link rest ih =>
    obtain ⟨op, y⟩ := link
    obtain ⟨hy, hrest⟩ := List.forall_mem_cons.mp hlinks
    dsimp only at hy
    rw [climb] at h
    rw [operations]
    cases hfactor : op.isFactor with
    | true =>
      rw [hfactor, if_pos rfl] at h
      obtain ⟨z, hz, h⟩ := bind_eq_ok.mp h
      obtain ⟨rfl, hdivisor⟩ := apply_eq_ok hz
      have hstep := Operation.isFinite_result_iff (o := ⟨x, op, y⟩)
        fun hop => ⟨hy, hdivisor hop⟩
      rw [ih hrest h, hstep, if_pos rfl, List.forall_mem_cons]
      simp only [hy, true_and, and_assoc]
    | false =>
      rw [hfactor, if_neg Bool.false_ne_true] at h
      rw [ih hrest h, if_neg Bool.false_ne_true, List.forall_mem_append]
      simp [FiniteSum, isFinite_close_iff, hy, and_assoc]

/-! ## The operations of a formula -/

def FiniteItems (items : List (Item Float)) : Prop :=
  ∀ x, .value x ∈ items → Datum.isFinite x = true

theorem isFinite_links {run : List Operator} {items : List (Item Float)} (h : FiniteItems items) :
    ∀ link ∈ links run items, Datum.isFinite link.2 = true := by
  induction items generalizing run with
  | nil => simp [links]
  | cons item rest ih =>
    have hrest : FiniteItems rest := fun x hx => h x (List.mem_cons_of_mem _ hx)
    cases item with
    | operator op => exact ih hrest
    | value x => exact List.forall_mem_cons.mpr ⟨h x List.mem_cons_self, ih hrest⟩

theorem isFinite_chain {items : List (Item Float)} (h : FiniteItems items) :
    Datum.isFinite (chain items).first = true ∧
      ∀ link ∈ (chain items).links, Datum.isFinite link.2 = true := by
  have hzero : Datum.isFinite 0 = true := holds_zero.isFinite
  cases items with
  | nil => exact ⟨hzero, nofun⟩
  | cons item rest =>
    have hrest : FiniteItems rest := fun x hx => h x (List.mem_cons_of_mem _ hx)
    cases item with
    | operator op => exact ⟨hzero, isFinite_links h⟩
    | value x => exact ⟨h x List.mem_cons_self, isFinite_links hrest⟩

theorem isFinite_valueOf_iff {items : List (Item Float)} {v : Float} (hfinite : FiniteItems items)
    (h : valueOf items = .ok v) :
    Datum.isFinite v = true ↔ ∀ o ∈ (chain items).operations, ¬ o.Overflows := by
  obtain ⟨hfirst, hlinks⟩ := isFinite_chain hfinite
  rw [valueOf_eq_climb] at h
  rw [isFinite_climb_iff hlinks h, hfirst]
  simp [FiniteSum, Chain.operations]

variable {aliases : Aliases} {context : Datum}

theorem Reaches.finite {q : Progress Float} {ts : List Token}
    (h : Reaches aliases context .start ts q) :
    FiniteItems q.items ∧ ∀ step ∈ q.steps, Datum.isFinite step.value = true := by
  refine h.keeps (fun _ q => FiniteItems q.items ∧
    ∀ step ∈ q.steps, Datum.isFinite step.value = true) ⟨nofun, nofun⟩ ?_ ?_
  · rintro - p op - ⟨hitems, hsteps⟩
    refine ⟨fun x hx => hitems x ?_, hsteps⟩
    simpa [Progress.operator] using hx
  · rintro - p p' name x - hx hp ⟨hitems, hsteps⟩
    obtain ⟨y, hy, hxy, -⟩ := operandValue_eq_used_iff.mp hx
    obtain ⟨result, -, rfl⟩ := operand_eq_ok hp
    have hfinite : Datum.isFinite x = true := hxy ▸ hy.isFinite
    have hjoined : FiniteItems p.joined := by
      unfold Progress.joined
      split
      · intro z hz
        exact hitems z (by simpa using hz)
      · exact hitems
    constructor
    · intro z hz
      rcases List.mem_append.mp hz with hbefore | hlast
      · exact hjoined z hbefore
      · obtain rfl := Item.value.inj (List.mem_singleton.mp hlast)
        exact hfinite
    · exact List.forall_mem_append.mpr ⟨hsteps, List.forall_mem_singleton.mpr hfinite⟩

end Renovation.Formula
