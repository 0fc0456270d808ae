import Mathlib.Algebra.BigOperators.Group.List.Basic
import Mathlib.Algebra.Order.Floor.Ring
import Mathlib.Data.Rat.Floor
import Renovation.Number

set_option autoImplicit false

/-!
# Exact numbers

The rational numbers to calculate with: no operation rounds, no whole number is out of range, and a
stored double stands for the number it holds exactly. A double that is no finite number stands for
zero; no formula reads one.
-/

namespace Renovation

instance : Number ℚ where
  ofNat n := n
  ofWhole n := .ok n
  ofDouble x :=
    match Datum.extentOfDouble x with
    | some (.finite q) => q
    | _ => 0
  isZero x := x == 0
  below x y := x < y
  belowWhole x n := x < n
  stepsBelow x step n := ⌈((n : ℚ) - x) / step⌉₊

namespace Exact

theorem isZero_iff (x : ℚ) : Number.isZero x = true ↔ x = 0 := beq_iff_eq

theorem sum_eq (xs : List ℚ) : Number.sum xs = xs.sum := List.sum_eq_foldl.symm

theorem greater_eq_max (x y : ℚ) : Number.greater x y = max x y := by
  have h : Number.greater x y = if decide (x < y) = true then y else x := rfl
  rw [h, max_def_lt]
  simp only [decide_eq_true_eq]

theorem ofDouble_zero : (Number.ofDouble 0.0 : ℚ) = 0 := by decide +kernel

theorem ofDouble_one : (Number.ofDouble 1.0 : ℚ) = 1 := by decide +kernel

theorem ofDouble_two : (Number.ofDouble 2.0 : ℚ) = 2 := by decide +kernel

theorem ofDouble_three : (Number.ofDouble 3.0 : ℚ) = 3 := by decide +kernel

theorem ofDouble_neg_one : (Number.ofDouble (-1.0) : ℚ) = -1 := by decide +kernel

end Exact

end Renovation
