import Renovation.Fault
import Renovation.Text.Lower

set_option autoImplicit false

/-!
# Residence types

Prices and heat demand are kept for three types of residence. A type is written as free text, and
`ResidenceType.classify` finds the type meant by it.
-/

namespace Renovation

inductive ResidenceType where
  /-- A house on the ground, and whatever is not recognised. -/
  | groundLevel
  /-- A flat on a shared staircase. -/
  | staircase
  /-- A flat on an open gallery. -/
  | gallery
deriving DecidableEq

namespace ResidenceType

def key : ResidenceType → String
  | groundLevel => "grondgebonden"
  | staircase => "portiek"
  | gallery => "gallerij"

/-- Older records spell the field of the ground level without its first d. -/
def olderGroundKey : String := "grongebonden"

def mentions (part : List Char) : List Char → Bool
  | [] => part.isEmpty
  | c :: rest => part.isPrefixOf (c :: rest) || mentions part rest

def ofText (s : String) : ResidenceType :=
  let lowered := (Text.lower s).toList
  if mentions "portiek".toList lowered then staircase
  else if mentions "galerij".toList lowered || mentions "gallerij".toList lowered then gallery
  else groundLevel

/-- The type that a stored value means. Where nothing is stored it is the ground level. -/
def classify (d : Datum) : Except Fault ResidenceType :=
  if d.isBlank then .ok groundLevel
  else
    match d with
    | .text s => .ok (ofText s)
    | _ => .error (.noLowerCase d)

end ResidenceType

end Renovation
