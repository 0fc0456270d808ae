import Renovation.Datum.Conversion

set_option autoImplicit false

/-!
# Numbers to calculate with

Every calculation is written over a type of numbers with the operations of `Number`. Programs run on
doubles. No law is assumed of the operations: one that a statement needs is asked for there, and a
statement that asks for none holds for doubles, rounding and all.
-/

namespace Renovation

class Number (α : Type) extends Zero α, Add α, Sub α, Mul α, Div α where
  ofNat : Nat → α
  /-- The number that a whole number stands for; a fault if it is out of range. -/
  ofWhole : Int → Except Fault α
  /-- The number that a stored double stands for. -/
  ofDouble : Float → α
  isZero : α → Bool
  /-- The first number is strictly below the second. -/
  below : α → α → Bool
  /-- A number is strictly below a whole number. -/
  belowWhole : α → Int → Bool
  /-- At least as many as the times that the second number can be added to the first before the sum
  reaches the whole number, if each addition moves it on. -/
  stepsBelow : α → α → Int → Nat

namespace Number

variable {α : Type} [Number α]

def one : α := ofNat 1

def hundred : α := ofNat 100

/-- The second number where it is above the first, else the first. -/
def greater (a b : α) : α := if below a b then b else a

/-- The sum from the left, starting at zero. What one addition loses in rounding is not made up for
by the next. -/
def sum (xs : List α) : α := xs.foldl (· + ·) 0

def fraction (percentage : α) : α := percentage / hundred

end Number

/-- Doubles. Comparison with whole numbers is exact, also where a whole number is no double. There
are fewer than `2 ^ 63` doubles from zero up, so no strictly growing run of them is longer. -/
instance : Number Float where
  zero := 0.0
  ofNat n := Float.ofNat n
  ofWhole := Datum.wholeToDouble
  ofDouble x := x
  isZero x := x == 0.0
  below x y := x < y
  belowWhole x n :=
    match Datum.extentOfDouble x with
    | some extent => extent.below (.finite n)
    | none => false
  stepsBelow _ _ _ := Decimal.twoTo 63

end Renovation
