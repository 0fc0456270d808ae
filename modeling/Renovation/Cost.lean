import Renovation.Number

set_option autoImplicit false

/-!
# Costs

A job's cost grows with the years: its price is multiplied by a power of the growth factor. A
negative factor raised to a fraction of a year has no real value, so a cost is real or complex. A
real number joins a complex one with an imaginary part of zero.
-/

namespace Renovation

inductive Cost (α : Type) where
  | real (x : α)
  | complex (re im : α)

namespace Cost

variable {α : Type} [Number α]

def add : Cost α → Cost α → Cost α
  | real x, real y => real (x + y)
  | real x, complex re im => complex (x + re) (0 + im)
  | complex re im, real y => complex (re + y) (im + 0)
  | complex re im, complex re' im' => complex (re + re') (im + im')

instance : Add (Cost α) := ⟨add⟩

instance : Zero (Cost α) := ⟨real 0⟩

def scale (price : α) : Cost α → Cost α
  | real x => real (price * x)
  | complex re im => complex (price * re - 0 * im) (price * im + 0 * re)

/-- A cost shared equally; `share` is not zero. -/
def divide (share : α) : Cost α → Cost α
  | real x => real (x / share)
  | complex re im =>
    let ratio := 0 / share
    let whole := share + 0 * ratio
    complex ((re + im * ratio) / whole) ((im - re * ratio) / whole)

def sum (costs : List (Cost α)) : Cost α := costs.foldl (· + ·) 0

end Cost

class Growth (α : Type) extends Number α where
  /-- A factor to the power of a count of years, at least zero; a fault if it is out of range. -/
  power : α → α → Except Fault (Cost α)

namespace Growth

def bounded (x : Float) : Bool := Datum.isFinite x

def isInfinite (x : Float) : Bool :=
  match Decimal.expand x with
  | .infinite _ => true
  | _ => false

/-- The principal value of a negative base to the power of a fraction, in polar form. -/
def polarPower (base exponent : Float) : Except Fault (Cost Float) :=
  let length := Float.pow base.abs exponent
  let phase := Float.atan2 0.0 base * exponent
  let re := length * phase.cos
  let im := length * phase.sin
  if isInfinite re || isInfinite im then .error .complexPowerTooLarge else .ok (.complex re im)

/-- Finite operands with an infinite power are out of range. -/
def realPower (base exponent : Float) : Except Fault (Cost Float) :=
  let result := Float.pow base exponent
  if bounded base && bounded exponent && isInfinite result then .error .powerTooLarge
  else .ok (.real result)

end Growth

instance : Growth Float where
  power base exponent :=
    if Growth.bounded base && Growth.bounded exponent && base < 0.0 && exponent.floor != exponent
    then Growth.polarPower base exponent
    else Growth.realPower base exponent

end Renovation
