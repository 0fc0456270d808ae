set_option autoImplicit false

/-!
# Powers

Powers of two and of ten, the scales of doubles and of decimals.
-/

namespace Renovation.Decimal

def twoTo (n : Nat) : Nat := Nat.pow 2 n

def tenTo (n : Nat) : Nat := Nat.pow 10 n

theorem twoTo_pos (n : Nat) : 0 < twoTo n := Nat.pow_pos (by decide)

end Renovation.Decimal
