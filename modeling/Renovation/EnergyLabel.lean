import Renovation.Number

set_option autoImplicit false

/-!
# Energy labels

Each label starts at a bound of energy use. The label of a use is the last one, in the order of the
bounds, that starts at or below it, and the first one where all start above it. Bounds and uses are
compared as they are stored, whole numbers and doubles by their exact values.
-/

namespace Renovation.EnergyLabel

abbrev Bounds := Datum.Fields

/-- Kilowatt-hours per square metre and year. -/
def standardBounds : Bounds :=
  [("A++++", .whole 0), ("A+++", .whole 50), ("A++", .whole 75), ("A+", .whole 105),
    ("A", .whole 160), ("B", .whole 190), ("C", .whole 250), ("D", .whole 290), ("E", .whole 335),
    ("F", .whole 380), ("G", .whole 1000)]

/-- Kilograms of carbon dioxide for a kilowatt-hour. -/
def carbonFactor : Float := 0.21

def comparable (a b : String × Datum) : Bool := (Datum.below? a.2 b.2).isSome

def inOrder (a b : String × Datum) : Bool := Datum.below? b.2 a.2 != some true

/-- Labels by rising bound; labels with one bound keep their order. -/
def sorted (bounds : Bounds) : List (String × Datum) := bounds.mergeSort inOrder

def sorted? (bounds : Bounds) : Except Fault (List (String × Datum)) :=
  match bounds with
  | [] | [_] => .ok bounds
  | first :: rest =>
    if rest.all fun entry => comparable first entry && comparable entry entry then
      .ok (sorted bounds)
    else .error .wrongKind

/-- The first of the ordered labels whose next one starts above the use. -/
def labelIn (use : Datum) : List (String × Datum) → Except Fault String
  | [] => .error .wrongKind
  | [(label, _)] => .ok label
  | (label, _) :: (next, bound) :: rest =>
    match Datum.below? use bound with
    | some true => .ok label
    | some false => labelIn use ((next, bound) :: rest)
    | none => .error .wrongKind

def orStandard (bounds : Bounds) : Bounds := if bounds.isEmpty then standardBounds else bounds

def label (use : Datum) (bounds : Bounds) : Except Fault String := do
  labelIn use (← sorted? (orStandard bounds))

/-- The difference of two stored numbers: exact for whole numbers, else of doubles. -/
def difference (a b : Datum) : Except Fault Datum :=
  match whole? a, whole? b with
  | some m, some n => .ok (.whole (m - n))
  | _, _ =>
    if a.extent?.isSome && b.extent?.isSome then do
      return .real ((← a.toDouble) - (← b.toDouble))
    else .error .wrongKind
where
  whole? : Datum → Option Int
    | .flag b => some (if b then 1 else 0)
    | .whole n => some n
    | _ => none

structure Improvement where
  currentUse : Datum
  newUse : Datum
  currentLabel : String
  newLabel : String
  /-- Labels gained, negative where the use went up. -/
  steps : Int

def improvement (current reduction : Datum) (bounds : Bounds) : Except Fault Improvement := do
  let bounds := orStandard bounds
  let order := (← sorted? bounds).map (·.1)
  let newUse ← difference current reduction
  let currentLabel ← label current bounds
  let newLabel ← label newUse bounds
  return {
    currentUse := current, newUse, currentLabel, newLabel
    steps := (order.idxOf currentLabel : Int) - order.idxOf newLabel }

variable {α : Type} [Number α]

def carbonReduction (heatDemand factor : α) : α := heatDemand * factor

end Renovation.EnergyLabel
