import Mathlib.Algebra.BigOperators.Group.List.Basic
import Mathlib.Tactic.Ring
import Renovation.Cost
import Renovation.Proofs.Exact

set_option autoImplicit false

/-!
# Exact costs

Costs over exact numbers are added in any order and grouping, and a cost that is shared equally
comes back when the share is multiplied by the count. Powers are left open: `withPowers` takes them
from a function.
-/

namespace Renovation

namespace Cost

theorem real_add_real (x y : ℚ) : (real x + real y : Cost ℚ) = real (x + y) := rfl

theorem real_add_complex (x re im : ℚ) :
    (real x + complex re im : Cost ℚ) = complex (x + re) (0 + im) := rfl

theorem complex_add_real (re im x : ℚ) :
    (complex re im + real x : Cost ℚ) = complex (re + x) (im + 0) := rfl

theorem complex_add_complex (re im re' im' : ℚ) :
    (complex re im + complex re' im' : Cost ℚ) = complex (re + re') (im + im') := rfl

instance : AddCommMonoid (Cost ℚ) where
  add_assoc a b c := by
    cases a <;> cases b <;> cases c <;>
      simp only [real_add_real, real_add_complex, complex_add_real, complex_add_complex,
        add_assoc, add_zero, zero_add]
  zero_add a := by
    cases a with
    | real x => exact congrArg real (zero_add x)
    | complex re im => exact congrArg₂ complex (zero_add re) (zero_add im)
  add_zero a := by
    cases a with
    | real x => exact congrArg real (add_zero x)
    | complex re im => exact congrArg₂ complex (add_zero re) (add_zero im)
  add_comm a b := by
    cases a <;> cases b <;>
      simp only [real_add_real, real_add_complex, complex_add_real, complex_add_complex,
        add_comm, add_zero]
  nsmul := nsmulRec

theorem sum_eq (costs : List (Cost ℚ)) : Cost.sum costs = costs.sum := List.sum_eq_foldl.symm

theorem scale_zero (x : ℚ) : (0 : Cost ℚ).scale x = 0 := congrArg real (mul_zero x)

theorem scale_add (x : ℚ) (a b : Cost ℚ) : (a + b).scale x = a.scale x + b.scale x := by
  cases a <;> cases b <;>
    simp only [scale, real_add_real, real_add_complex, complex_add_real, complex_add_complex,
      mul_add, zero_mul, sub_zero, add_zero, zero_add]

theorem scale_sum (x : ℚ) (costs : List (Cost ℚ)) :
    costs.sum.scale x = (costs.map (scale x)).sum := by
  induction costs with
  | nil => exact scale_zero x
  | cons cost rest ih => rw [List.sum_cons, scale_add, ih, List.map_cons, List.sum_cons]

theorem scale_divide {share : ℚ} (h : share ≠ 0) (cost : Cost ℚ) :
    (cost.divide share).scale share = cost := by
  cases cost with
  | real x => exact congrArg real (mul_div_cancel₀ x h)
  | complex re im =>
    simp only [divide, scale, zero_div, mul_zero, add_zero, sub_zero, zero_mul,
      mul_div_cancel₀ _ h]

end Cost

namespace Exact

@[reducible] def withPowers (power : ℚ → ℚ → Except Fault (Cost ℚ)) : Growth ℚ where
  toNumber := instNumberRat
  power := power

def wholePower (base exponent : ℚ) : Except Fault (Cost ℚ) := .ok (.real (base ^ exponent.floor))

theorem wholePower_natCast (base : ℚ) (exponent : ℕ) :
    wholePower base exponent = .ok (.real (base ^ exponent)) := by
  change Except.ok (Cost.real (base ^ ⌊(exponent : ℚ)⌋)) = _
  rw [Int.floor_natCast, zpow_natCast]

end Exact

end Renovation
