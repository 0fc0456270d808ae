import Renovation.Decimal.Layout

set_option autoImplicit false

/-!
# Fixed places

The exact value of a double rounded to a fixed count of places, with groups of three digits in the
whole part. `Marks` holds the two characters that a country chooses.
-/

namespace Renovation.Decimal

structure Marks where
  /-- Between groups of three digits; none if digits are not grouped. -/
  group : Option Char
  /-- Before the fraction. -/
  point : Char

def Marks.plain : Marks := ⟨none, '.'⟩
def Marks.english : Marks := ⟨some ',', '.'⟩
def Marks.dutch : Marks := ⟨some '.', ','⟩

def groupReversed (mark : Char) : List Char → List Char
  | a :: b :: c :: d :: rest => a :: b :: c :: mark :: groupReversed mark (d :: rest)
  | few => few

def Marks.groupDigits (marks : Marks) (digits : List Char) : List Char :=
  match marks.group with
  | none => digits
  | some mark => (groupReversed mark digits.reverse).reverse

/-- Digits of `units` hundredths, thousandths, …: at least one digit stands before the places. -/
def Marks.placed (marks : Marks) (places units : Nat) : List Char :=
  let digits := digitsOf units
  let padded := List.replicate (places + 1 - digits.length) '0' ++ digits
  let split := padded.length - places
  let fraction := if places == 0 then [] else marks.point :: padded.drop split
  marks.groupDigits (padded.take split) ++ fraction

def fixedText (marks : Marks) (places : Nat) : Float → String :=
  signed fun b =>
    String.ofList (marks.placed places (roundHalfEven (b.num * tenTo places) b.den))

end Renovation.Decimal
