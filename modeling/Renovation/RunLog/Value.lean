import Renovation.Datum
import Renovation.Text.Path

set_option autoImplicit false

/-!
# Values for a log

What callers hand to a log: stored values, and with them tuples, paths, and the arrays and single
numbers of numerical code. `plain` turns them into stored values, shape and order kept.
-/

namespace Renovation

inductive Scalar where
  | flag (value : Bool)
  | whole (value : Int)
  | real (value : Float)
  | text (value : String)

namespace Scalar

def plain : Scalar → Datum
  | flag b => .flag b
  | whole n => .whole n
  | real x => .real x
  | text s => .text s

end Scalar

inductive NumberArray where
  | cell (value : Scalar)
  | row (items : List NumberArray)

namespace NumberArray

instance : Inhabited NumberArray := ⟨row []⟩

mutual

def plain : NumberArray → Datum
  | cell value => value.plain
  | row items => .list (plainItems items)

def plainItems : List NumberArray → List Datum
  | [] => []
  | item :: rest => plain item :: plainItems rest

end

mutual

def anyCell (p : Scalar → Bool) : NumberArray → Bool
  | cell value => p value
  | row items => anyCellItems p items

def anyCellItems (p : Scalar → Bool) : List NumberArray → Bool
  | [] => false
  | item :: rest => anyCell p item || anyCellItems p rest

end

mutual

def mapCells (f : Scalar → Scalar) : NumberArray → NumberArray
  | cell value => cell (f value)
  | row items => row (mapCellsItems f items)

def mapCellsItems (f : Scalar → Scalar) : List NumberArray → List NumberArray
  | [] => []
  | item :: rest => mapCells f item :: mapCellsItems f rest

end

def isReal : Scalar → Bool
  | .real _ => true
  | _ => false

def isWhole : Scalar → Bool
  | .whole _ => true
  | _ => false

def toReal : Scalar → Scalar
  | .flag b => .real (if b then 1.0 else 0.0)
  | .whole n => .real (Float.ofInt n)
  | other => other

def toWhole : Scalar → Scalar
  | .flag b => .whole (if b then 1 else 0)
  | other => other

/-- An array has cells of one kind: doubles if one of them is a double, else whole numbers if one of
them is whole. -/
def uniform (a : NumberArray) : NumberArray :=
  if a.anyCell isReal then a.mapCells toReal
  else if a.anyCell isWhole then a.mapCells toWhole
  else a

end NumberArray

inductive LogValue where
  | null
  | flag (value : Bool)
  | whole (value : Int)
  | real (value : Float)
  | text (value : String)
  | list (items : List LogValue)
  | tuple (items : List LogValue)
  | record (fields : List (String × LogValue))
  | path (value : String)
  | array (value : NumberArray)
  | scalar (value : Scalar)

namespace LogValue

instance : Inhabited LogValue := ⟨null⟩

mutual

def plain : LogValue → Datum
  | null => .null
  | flag b => .flag b
  | whole n => .whole n
  | real x => .real x
  | text s => .text s
  | list items => .list (plainItems items)
  | tuple items => .list (plainItems items)
  | record fields => .record (plainFields fields)
  | path p => .text (Text.normalPath p)
  | array a => a.plain
  | scalar s => s.plain

def plainItems : List LogValue → List Datum
  | [] => []
  | item :: rest => plain item :: plainItems rest

def plainFields : List (String × LogValue) → List (String × Datum)
  | [] => []
  | (name, value) :: rest => (name, plain value) :: plainFields rest

end

mutual

def ofDatum : Datum → LogValue
  | .null => null
  | .flag b => flag b
  | .whole n => whole n
  | .real x => real x
  | .text s => text s
  | .list items => list (ofItems items)
  | .record fields => record (ofFields fields)

def ofItems : List Datum → List LogValue
  | [] => []
  | item :: rest => ofDatum item :: ofItems rest

def ofFields : List (String × Datum) → List (String × LogValue)
  | [] => []
  | (name, value) :: rest => (name, ofDatum value) :: ofFields rest

end

end LogValue

end Renovation
