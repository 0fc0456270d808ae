import Renovation.Decimal.Digits
import Renovation.Text.Blank
import Renovation.Text.Digit

set_option autoImplicit false

/-!
# Reading numbers

Numbers as people type them. Digits of any script count; single underscores may stand between
digits; blanks around the number are dropped. `readDouble?` takes positional and exponent forms and
the words for infinity and for no number, `readWhole?` takes whole numbers. A decimal too large for
a double reads as an infinity.
-/

namespace Renovation.Decimal

open Renovation.Text

/-- ASCII stays as it is; other digits and blanks become the ASCII ones. -/
def plainChar (c : Char) : Char :=
  if c.toNat < 128 then c
  else if isBlank c then ' '
  else
    match digitValue? c with
    | some d => Char.ofNat (48 + d)
    | none => c

def isPlainBlank (c : Char) : Bool := c == ' ' || (9 ≤ c.toNat && c.toNat ≤ 13)

def plainChars (s : String) : List Char := trimEnds isPlainBlank (s.toList.map plainChar)

def dropUnderscores (afterDigit : Bool) : List Char → Option (List Char)
  | [] => some []
  | '_' :: rest =>
    match afterDigit, rest with
    | true, d :: _ => if d.isDigit then dropUnderscores false rest else none
    | _, _ => none
  | c :: rest => (dropUnderscores c.isDigit rest).map (c :: ·)

def splitSign : List Char → Bool × List Char
  | '-' :: rest => (true, rest)
  | '+' :: rest => (false, rest)
  | cs => (false, cs)

def digitsValue (cs : List Char) : Nat := cs.foldl (fun n c => 10 * n + (c.toNat - 48)) 0

def signedValue (negative : Bool) (n : Nat) : Int := if negative then -(n : Int) else n

inductive Numeral where
  | decimal (coefficient : Nat) (exponent : Int)
  | infinite
  | notANumber

def readExponent? : List Char → Option Int
  | [] => some 0
  | c :: rest =>
    if c == 'e' || c == 'E' then
      let (negative, digits) := splitSign rest
      if digits.isEmpty || !digits.all Char.isDigit then none
      else some (signedValue negative (digitsValue digits))
    else none

def readMagnitude? (cs : List Char) : Option Numeral :=
  let word := String.ofList (cs.map Char.toLower)
  if word == "inf" || word == "infinity" then some .infinite
  else if word == "nan" then some .notANumber
  else
    let whole := cs.takeWhile Char.isDigit
    let rest := cs.dropWhile Char.isDigit
    let (fraction, rest) :=
      match rest with
      | '.' :: after => (after.takeWhile Char.isDigit, after.dropWhile Char.isDigit)
      | _ => ([], rest)
    if whole.isEmpty && fraction.isEmpty then none
    else (readExponent? rest).map fun power =>
      .decimal (digitsValue (whole ++ fraction)) (power - fraction.length)

def infiniteDouble : Float := 1.0 / 0.0
def undefinedDouble : Float := 0.0 / 0.0

/-- The nearest double. Powers of ten far outside the range are settled by the count of digits. -/
def Numeral.toDouble : Numeral → Float
  | .infinite => infiniteDouble
  | .notANumber => undefinedDouble
  | .decimal coefficient exponent =>
    let size : Int := (Nat.toDigits 10 coefficient).length
    if coefficient == 0 then 0.0
    else if 310 < size + exponent then infiniteDouble
    else if size + exponent < -330 then 0.0
    else Float.ofScientific coefficient (exponent < 0) exponent.natAbs

def readDouble? (s : String) : Option Float := do
  let cs ← dropUnderscores false (plainChars s)
  let (negative, magnitude) := splitSign cs
  let numeral ← readMagnitude? magnitude
  return if negative then -numeral.toDouble else numeral.toDouble

def readWhole? (s : String) : Option Int := do
  let cs ← dropUnderscores false (plainChars s)
  let (negative, digits) := splitSign cs
  if digits.isEmpty || wholeDigits < digits.length || !digits.all Char.isDigit then none
  else some (signedValue negative (digitsValue digits))

/-- The double nearest to a whole number, a half going to the even neighbour; none if that is beyond
the largest double. -/
def wholeToDouble? (n : Int) : Option Float :=
  if twoTo 1024 - twoTo 970 ≤ n.natAbs then none else some (Float.ofInt n)

inductive Truncated where
  | whole (n : Int)
  | infinite
  | notANumber

def truncate (x : Float) : Truncated :=
  match expand x with
  | .finite b => .whole b.truncate
  | .infinite _ => .infinite
  | .notANumber => .notANumber

end Renovation.Decimal
