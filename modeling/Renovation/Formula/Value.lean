import Renovation.Formula.Token
import Renovation.Number

set_option autoImplicit false

/-!
# The value of a formula

A formula whose names are resolved is a list of values and operators in any order. `valueOf` gives
it a value in two passes: the first multiplies and divides neighbours as soon as the right operand
arrives, the second adds and subtracts from the left. An operator without an operand on either side
is passed over; of several signs in a row the last plus or minus counts.
-/

namespace Renovation.Formula

inductive Item (α : Type) where
  | value (x : α)
  | operator (op : Operator)

namespace Item

variable {α : Type}

def operator? : Item α → Option Operator
  | value _ => none
  | operator op => some op

end Item

variable {α : Type} [Number α]

def divide (x y : α) : Except Fault α :=
  if Number.isZero y then .error .divisionByZero else .ok (x / y)

/-- The first pass, over the items so far in reverse: a value behind a factor sign and a value joins
them. -/
def push (reversed : List (Item α)) : Item α → Except Fault (List (Item α))
  | .value y =>
    match reversed with
    | .operator .times :: .value x :: rest => .ok (.value (x * y) :: rest)
    | .operator .dividedBy :: .value x :: rest => do return .value (← divide x y) :: rest
    | _ => .ok (.value y :: reversed)
  | item => .ok (item :: reversed)

structure Running (α : Type) where
  total : α
  subtract : Bool

/-- The second pass. A sign stays in force until a value uses it. -/
def Running.next (r : Running α) : Item α → Running α
  | .operator .plus => { r with subtract := false }
  | .operator .minus => { r with subtract := true }
  | .operator _ => r
  | .value x => ⟨if r.subtract then r.total - x else r.total + x, false⟩

/-- A formula that starts with an operator starts from zero. -/
def start : List (Item α) → List (Item α)
  | .operator _ :: _ => [.value 0]
  | _ => []

def total : List (Item α) → α
  | .value x :: rest => (rest.foldl Running.next ⟨x, false⟩).total
  | _ => 0

def valueOf (items : List (Item α)) : Except Fault α := do
  let reversed ← items.foldlM push (start items)
  return total reversed.reverse

end Renovation.Formula
