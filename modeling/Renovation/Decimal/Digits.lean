import Renovation.Decimal.Binary
import Renovation.Decimal.Rounding

set_option autoImplicit false

/-!
# Significant digits

A positive magnitude in decimal: `Scientific` holds a whole coefficient and a power of ten. Two ways
to choose the coefficient are given: the fewest digits that read back to the same double, and a
fixed count of significant digits.
-/

namespace Renovation.Decimal

/-- The number `coefficient * 10 ^ exponent`. -/
structure Scientific where
  coefficient : Nat
  exponent : Int

def digitsOf (n : Nat) : List Char := Nat.toDigits 10 n

theorem digitsOf_ne_nil (n : Nat) : digitsOf n ≠ [] := Nat.toDigits_ne_nil

theorem isDigit_of_mem_digitsOf {n : Nat} {c : Char} (h : c ∈ digitsOf n) : c.isDigit = true :=
  Nat.isDigit_of_mem_toDigits (by decide) (by decide) h

/-- The most digits that a whole number is read from, zeros in front included, or written with. -/
def wholeDigits : Nat := 4300

def placesToOne (num den : Nat) : Nat → Nat
  | 0 => 0
  | fuel + 1 => if den ≤ num then 0 else placesToOne (num * 10) den fuel + 1

/-- The `place` with `10 ^ (place - 1) ≤ num / den < 10 ^ place`, for a positive fraction that is
not below `10 ^ -400`. -/
def leadingPlace (num den : Nat) : Int :=
  if den ≤ num then (digitsOf (num / den)).length
  else 1 - (placesToOne num den 400 : Int)

def Scientific.strip (s : Scientific) : Scientific :=
  let zeros := ((digitsOf s.coefficient).reverse.takeWhile (· == '0')).length
  ⟨s.coefficient / tenTo zeros, s.exponent + zeros⟩

/-- The reals that round to a double lie between `low` and `high`, all four over one denominator.
The ends belong to them if the mantissa is even. -/
structure Rounding where
  low : Nat
  value : Nat
  high : Nat
  den : Nat
  closed : Bool

def Binary.rounding (b : Binary) : Rounding :=
  let scale := twoTo b.exponent.toNat
  let below := if b.mantissa == twoTo 52 && b.exponent != -1074 then 1 else 2
  { low := (4 * b.mantissa - below) * scale
    value := 4 * b.mantissa * scale
    high := (4 * b.mantissa + 2) * scale
    den := 4 * b.den
    closed := b.mantissa % 2 == 0 }

/-- The neighbour of the value on the grid of `10 ^ exponent` that rounds to it. If both do, the
nearer one is taken, and of two equally near ones the even one. -/
def Rounding.onGrid (r : Rounding) (exponent : Int) : Option Scientific :=
  let grow := tenTo (-exponent).toNat
  let unit := r.den * tenTo exponent.toNat
  let lower := r.value * grow / unit
  let fits (n : Nat) : Bool :=
    if r.closed then r.low * grow ≤ n * unit && n * unit ≤ r.high * grow
    else r.low * grow < n * unit && n * unit < r.high * grow
  match fits lower, fits (lower + 1) with
  | true, true => some ⟨roundHalfEven (r.value * grow) unit, exponent⟩
  | true, false => some ⟨lower, exponent⟩
  | false, true => some ⟨lower + 1, exponent⟩
  | false, false => none

def significant (count num den : Nat) : Scientific :=
  let exponent := leadingPlace num den - count
  ⟨roundHalfEven (num * tenTo (-exponent).toNat) (den * tenTo exponent.toNat), exponent⟩

/-- The fewest digits that read back to the same positive double, and of those the nearest to it:
the first grid that has a point in the double's interval decides. Seventeen digits always do. -/
def Binary.shortest (b : Binary) : Scientific :=
  let place := leadingPlace b.num b.den
  let grids := (List.range 17).map fun k => place - (k + 1 : Nat)
  ((grids.findSome? b.rounding.onGrid).getD (significant 17 b.num b.den)).strip

end Renovation.Decimal
