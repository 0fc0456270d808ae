import Renovation.Decimal.Power

set_option autoImplicit false

/-!
# The exact value of a double

A finite double is a whole number times a power of two. `expand` takes a double apart into that
form; everything that prints or compares doubles exactly starts here.
-/

namespace Renovation.Decimal

/-- The number `± mantissa * 2 ^ exponent`. -/
structure Binary where
  negative : Bool
  mantissa : Nat
  exponent : Int

inductive Expansion where
  | finite (value : Binary)
  | infinite (negative : Bool)
  | notANumber

/-- Sign bit, eleven bits of exponent and fifty-two of fraction; the implicit leading bit is made
explicit. -/
def expand (x : Float) : Expansion :=
  let bits : Nat := x.toBits.toNat
  let negative := bits / twoTo 63 == 1
  let exponent : Nat := bits / twoTo 52 % twoTo 11
  let fraction : Nat := bits % twoTo 52
  if exponent == 2047 then
    if fraction == 0 then .infinite negative else .notANumber
  else if exponent == 0 then .finite ⟨negative, fraction, -1074⟩
  else .finite ⟨negative, twoTo 52 + fraction, (exponent : Int) - 1075⟩

namespace Binary

def num (b : Binary) : Nat := b.mantissa * twoTo b.exponent.toNat

def den (b : Binary) : Nat := twoTo (-b.exponent).toNat

theorem den_pos (b : Binary) : 0 < b.den := twoTo_pos _

def toRat (b : Binary) : Rat :=
  mkRat (if b.negative then -(b.num : Int) else b.num) b.den

def truncate (b : Binary) : Int :=
  let whole : Int := (b.num / b.den : Nat)
  if b.negative then -whole else whole

end Binary

end Renovation.Decimal
