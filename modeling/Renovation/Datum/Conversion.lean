import Renovation.Decimal.Reading
import Renovation.Fault

set_option autoImplicit false

/-!
# Numbers and records out of stored values

Two readers of numbers exist on purpose. `number` is lenient: a decimal comma is accepted, and what
is no finite number reads as none. `toDouble` is strict: what is no number is a fault. Either way a
whole number beyond the doubles is a fault.
-/

namespace Renovation.Datum

open Decimal

def wholeToDouble (n : Int) : Except Fault Float :=
  match wholeToDouble? n with
  | some x => .ok x
  | none => .error .wholeTooLarge

def isFinite (x : Float) : Bool :=
  match expand x with
  | .finite _ => true
  | _ => false

def finite? (x : Float) : Option Float := if isFinite x then some x else none

def withDecimalPoint (s : String) : String :=
  if s.contains ',' && !s.contains '.' then
    String.ofList (s.toList.map fun c => if c == ',' then '.' else c)
  else s

def numberOfText? (s : String) : Option Float :=
  (readDouble? (withDecimalPoint (Text.trim s))).bind finite?

/-- The finite number that is stored, none if what is stored is no number. A flag is none. -/
def number : Datum → Except Fault (Option Float)
  | whole n => (wholeToDouble n).map some
  | real x => .ok (finite? x)
  | text s => .ok (numberOfText? s)
  | _ => .ok none

def numberOrZero (d : Datum) : Except Fault Float := do
  return (← d.number).getD 0.0

/-- The double a number or a numeric text stands for; flags count as 0 and 1. -/
def toDouble : Datum → Except Fault Float
  | flag b => .ok (if b then 1.0 else 0.0)
  | whole n => wholeToDouble n
  | real x => .ok x
  | text s =>
    match readDouble? s with
    | some x => .ok x
    | none => .error (.unreadableDouble s)
  | _ => .error .wrongKind

/-- The whole number a number or a text of digits stands for, fractions cut off. -/
def toWhole : Datum → Except Fault Int
  | flag b => .ok (if b then 1 else 0)
  | whole n => .ok n
  | real x =>
    match truncate x with
    | .whole n => .ok n
    | .infinite => .error .infiniteWhole
    | .notANumber => .error .undefinedWhole
  | text s =>
    match readWhole? s with
    | some n => .ok n
    | none => .error (.unreadableWhole s)
  | _ => .error .wrongKind

def requireWritable (d : Datum) : Except Fault Unit :=
  if d.isWritable then .ok () else .error .tooManyDigits

/-- What a value holds, one after the other: items, characters, or the names of the fields. -/
def items : Datum → Except Fault (List Datum)
  | list xs => .ok xs
  | text s => .ok (s.toList.map fun c => text (String.singleton c))
  | record fs => .ok (fs.map fun f => text f.1)
  | _ => .error .wrongKind

def toName : Datum → Except Fault String
  | text s => .ok s
  | null => .ok "null"
  | flag b => .ok (if b then "true" else "false")
  | whole n => .ok (toString n)
  | real x => .ok (shortestText .plain x)
  | d => .error (.unusableName d)

def pair (index : Nat) (d : Datum) : Except Fault (String × Datum) := do
  match ← d.items with
  | [name, value] => return (← name.toName, value)
  | parts => .error (.unevenPair index parts.length)

def pairsFrom (index : Nat) : List Datum → Except Fault (List (String × Datum))
  | [] => .ok []
  | d :: rest => do
    let entry ← pair index d
    return entry :: (← pairsFrom (index + 1) rest)

/-- The fields of a record, or of a list of pairs. Where nothing is stored there are none. -/
def toFields (d : Datum) : Except Fault Fields :=
  if d.isBlank then .ok []
  else
    match d with
    | record fs => .ok fs
    | _ => do return Entries.ofList (← pairsFrom 0 (← d.items))

end Renovation.Datum
