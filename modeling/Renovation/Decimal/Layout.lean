import Renovation.Decimal.Digits

set_option autoImplicit false

/-!
# Significant digits as text

A layout says which magnitudes are written positionally and what follows a whole number; the others
are written with an exponent of at least two digits and a sign.
-/

namespace Renovation.Decimal

structure Layout where
  /-- The lowest power of ten of a leading digit that is written positionally. -/
  lowest : Int
  /-- The first power of ten that is written with an exponent again. -/
  beyond : Int
  /-- What follows a whole number written positionally. -/
  whole : String

/-- A double as a stored value shows it: `1.0`, `0.0001`, `1e-05`, `1e+16`. -/
def Layout.plain : Layout := ⟨-4, 16, ".0"⟩

/-- A part of a complex number: as `plain`, but a whole number stays bare. -/
def Layout.bare : Layout := ⟨-4, 16, ""⟩

/-- Six significant digits at most: `10`, `0.5`, `1.23457e+06`. -/
def Layout.general : Layout := ⟨-4, 6, ""⟩

def exponentText (exponent : Int) : String :=
  let digits := digitsOf exponent.natAbs
  let sign := if exponent < 0 then '-' else '+'
  String.ofList ('e' :: sign :: (List.replicate (2 - digits.length) '0' ++ digits))

/-- `s` has no zeros at the end of its coefficient. -/
def Layout.text (layout : Layout) (s : Scientific) : String :=
  let digits := digitsOf s.coefficient
  let leading := s.exponent + digits.length - 1
  if leading < layout.lowest || layout.beyond ≤ leading then
    let fraction := if digits.length ≤ 1 then [] else '.' :: digits.drop 1
    String.ofList (digits.take 1 ++ fraction) ++ exponentText leading
  else if 0 ≤ s.exponent then
    String.ofList (digits ++ List.replicate s.exponent.toNat '0') ++ layout.whole
  else if 0 ≤ leading then
    let point := (leading + 1).toNat
    String.ofList (digits.take point ++ '.' :: digits.drop point)
  else
    String.ofList ('0' :: '.' :: (List.replicate (-leading - 1).toNat '0' ++ digits))

def signed (magnitude : Binary → String) (x : Float) : String :=
  match expand x with
  | .notANumber => "nan"
  | .infinite negative => if negative then "-inf" else "inf"
  | .finite b => (if b.negative then "-" else "") ++ magnitude b

def shortestText (layout : Layout) : Float → String :=
  signed fun b => layout.text (if b.mantissa == 0 then ⟨0, 0⟩ else b.shortest)

def generalText : Float → String :=
  signed fun b =>
    Layout.general.text (if b.mantissa == 0 then ⟨0, 0⟩ else (significant 6 b.num b.den).strip)

end Renovation.Decimal
