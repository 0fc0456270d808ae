set_option autoImplicit false

/-!
# Halves of pairs

Texts come from arguments and documents, and may hold half of a surrogate pair, which no `Char` is.
The last 2048 private code points stand for the halves; a file cannot hold them.
-/

namespace Renovation.Text

/-- The code point that stands for the first half. -/
def firstHalf : Nat := 0x10F800

def isHalf (c : Char) : Bool := firstHalf ≤ c.toNat

def halfOf (n : Nat) : Char := Char.ofNat (n - 0xD800 + firstHalf)

/-- The number of a character, that of the half for one that stands for a half. -/
def codePoint (c : Char) : Nat := if isHalf c then c.toNat - firstHalf + 0xD800 else c.toNat

def before (s t : String) : Bool := s.toList.map codePoint < t.toList.map codePoint

def firstHalves? (cs : List Char) : Option (Nat × List Char) :=
  match cs.dropWhile (!isHalf ·) with
  | [] => none
  | rest => some ((cs.takeWhile (!isHalf ·)).length, rest.takeWhile isHalf)

end Renovation.Text
