set_option autoImplicit false

/-!
# Rounding a quotient

`roundHalfEven num den` is the whole number nearest to `num / den`; a quotient halfway between two
of them goes to the even one.
-/

namespace Renovation.Decimal

def roundHalfEven (num den : Nat) : Nat :=
  let quotient := num / den
  let rest := num % den
  if 2 * rest < den then quotient
  else if den < 2 * rest then quotient + 1
  else quotient + quotient % 2

end Renovation.Decimal
