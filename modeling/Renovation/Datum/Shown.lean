import Renovation.Datum
import Renovation.Decimal.Layout
import Renovation.Text.Quoted

set_option autoImplicit false

/-!
# Stored values as text

`shown` writes a stored value so that its kind can be told: texts are quoted. `toText` is the same
but for a value that is a text itself, which stands for itself. A value with a whole number of too
many digits has neither; `isWritable` tells it.
-/

namespace Renovation.Datum

def shownFlag (b : Bool) : String := if b then "True" else "False"

mutual

def shown : Datum → String
  | null => "None"
  | flag b => shownFlag b
  | whole n => toString n
  | real x => Decimal.shortestText .plain x
  | text s => Text.quoted s
  | list xs => "[" ++ ", ".intercalate (shownItems xs) ++ "]"
  | record fs => "\x7b" ++ ", ".intercalate (shownFields fs) ++ "\x7d"

def shownItems : List Datum → List String
  | [] => []
  | x :: xs => shown x :: shownItems xs

def shownFields : List (String × Datum) → List String
  | [] => []
  | (name, value) :: rest => (Text.quoted name ++ ": " ++ shown value) :: shownFields rest

end

def toText : Datum → String
  | text s => s
  | d => d.shown

mutual

/-- Every whole number in a value has few enough digits. A name stands for its first entry. -/
def isWritable : Datum → Bool
  | whole n => (Decimal.digitsOf n.natAbs).length ≤ Decimal.wholeDigits
  | list xs => itemsWritable xs
  | record fs => fieldsWritable [] fs
  | _ => true

def itemsWritable : List Datum → Bool
  | [] => true
  | x :: xs => isWritable x && itemsWritable xs

def fieldsWritable (earlier : List String) : List (String × Datum) → Bool
  | [] => true
  | (name, value) :: rest =>
    (earlier.contains name || isWritable value) && fieldsWritable (name :: earlier) rest

end

end Renovation.Datum
