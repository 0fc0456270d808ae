import Renovation.Datum.Conversion
import Renovation.Text.Lower

set_option autoImplicit false

/-!
# Variables

What a name in a formula stands for. A context is a record of variables with two nested records, the
dwelling's own variables and its dimensions. The first that has the name decides: the dwelling, the
context, the table of older names, the dimensions under the name in lower case, and last the name
itself read as a number. A null entry counts as missing.
-/

namespace Renovation.Formula

/-- Older names: each stands for a constant or for the name that replaced it. -/
abbrev Aliases := Datum.Fields

def standardAliases : Aliases :=
  [("AantalWoningen", .text "aantalWoningen"), ("Dakoppervlak", .text "dakOppervlak"),
    ("LengteDakvlak", .text "dakLengte"), ("BreedteWoning", .text "breedte"),
    ("NettoGevelOppervlak", .text "gevelOppervlakNetto"),
    ("VloerOppervlakteBeganeGrond", .text "vloerOppervlak"),
    ("OmtrekKozijnen", .text "kozijnOmtrekTotaal"),
    ("GevelOppervlak", .text "gevelOppervlakTotaal"),
    ("5%", .real 0.05)]

def dwellingField : String := "woningSpecifiek"

def dimensionsField : String := "dimensions"

def direct? (context : Datum) (name : String) : Option Datum :=
  ((context.field dwellingField).present? name).or (context.present? name)

/-- What an older name gives. Other values than numbers and texts cannot name a variable. -/
def throughAlias (aliases : Aliases) (context : Datum) (name : String) :
    Except Fault (Option Datum) :=
  match (aliases.lookup name).getD .null with
  | .flag b => .ok (some (.flag b))
  | .whole n => .ok (some (.whole n))
  | .real x => .ok (some (.real x))
  | .text current => .ok (if current.isEmpty then none else direct? context current)
  | entry => if entry.isBlank then .ok none else .error (.unusableName entry)

/-- The dimension of this name in lower case, or else the number the name spells. -/
def dimensionOrLiteral? (context : Datum) (name : String) : Option Datum :=
  ((context.field dimensionsField).present? (Text.lower name)).or
    ((Datum.numberOfText? name).map .real)

def resolve (aliases : Aliases) (context : Datum) (name : String) : Except Fault (Option Datum) :=
  if !context.isRecord then .error (.noFields context)
  else
    match direct? context name with
    | some value => .ok (some value)
    | none => do
      match ← throughAlias aliases context name with
      | some value => return some value
      | none => return dimensionOrLiteral? context name

end Renovation.Formula
