import Renovation.Formula.Variable

set_option autoImplicit false

/-!
# Dwellings

How many dwellings a context counts.
-/

namespace Renovation.Dwellings

def countName : String := "aantalWoningen"

/-- A number without its fraction; what is no whole number counts none. -/
def cutOff (x : Float) : Except Fault Int := (Datum.real x).toWhole

def count (context : Datum) : Except Fault Int := do
  match ← Formula.resolve Formula.standardAliases context countName with
  | none => return 0
  | some stored =>
    match ← stored.number with
    | none => return 0
    | some x => cutOff x

end Renovation.Dwellings
