import Renovation.Formula.Value
import Renovation.Formula.Variable

set_option autoImplicit false

/-!
# Evaluation

A formula is evaluated operand by operand. Each operand leaves a step with its value, the operator
in front of it and the value of the formula up to there, so that a price can be explained. Two
operands in a row are joined by the last operator seen. A name without a value, a value that is no
number and a zero behind a division sign end the evaluation with an error; the steps so far are
kept.
-/

namespace Renovation.Formula

inductive EvaluationError where
  | missing (name : String)
  | notNumeric (name : String) (value : Datum)
  | zeroDivisor (name : String)

namespace EvaluationError

def message : EvaluationError → String
  | missing name => s!"Variabele {name} niet gevonden in berekeningen"
  | notNumeric name value => s!"Waarde voor {name} ({value.toText}) is geen getal"
  | zeroDivisor name => s!"Deling door nul bij {name}"

end EvaluationError

structure Step (α : Type) where
  name : String
  value : α
  operator : Operator
  /-- The value of the formula up to this operand. -/
  result : α

structure Evaluation (α : Type) where
  steps : List (Step α)
  outcome : Except EvaluationError α

namespace Evaluation

variable {α : Type}

def value [Zero α] (e : Evaluation α) : α :=
  match e.outcome with
  | .ok x => x
  | .error _ => 0

def error? (e : Evaluation α) : Option EvaluationError :=
  match e.outcome with
  | .ok _ => none
  | .error error => some error

end Evaluation

structure Progress (α : Type) where
  items : List (Item α)
  steps : List (Step α)
  lastOperator : Operator

namespace Progress

variable {α : Type}

def start : Progress α := ⟨[], [], .plus⟩

def operator (p : Progress α) (op : Operator) : Progress α :=
  { p with items := p.items ++ [.operator op], lastOperator := op }

/-- The items an operand is appended to: behind a value the last operator is repeated. -/
def joined (p : Progress α) : List (Item α) :=
  match p.items.getLast? with
  | some (.value _) => p.items ++ [.operator p.lastOperator]
  | _ => p.items

/-- The operator in front of the next operand, plus if there is none. -/
def sign (p : Progress α) : Operator := (p.joined.getLast?.bind Item.operator?).getD .plus

def dividesNext (p : Progress α) : Bool :=
  match p.joined.getLast? with
  | some (.operator .dividedBy) => true
  | _ => false

variable [Number α]

def operand (p : Progress α) (name : String) (x : α) : Except Fault (Progress α) := do
  let items := p.joined ++ [.value x]
  let result ← valueOf items
  return { p with items, steps := p.steps ++ [⟨name, x, p.sign, result⟩] }

end Progress

variable {α : Type} [Number α]

def operandValue (aliases : Aliases) (context : Datum) (p : Progress α) (name : String) :
    Except Fault (Except EvaluationError α) := do
  match ← resolve aliases context name with
  | none => return .error (.missing name)
  | some stored =>
    match ← stored.number with
    | none => do
      stored.requireWritable
      return .error (.notNumeric name stored)
    | some x =>
      let x : α := Number.ofDouble x
      return if p.dividesNext && Number.isZero x then .error (.zeroDivisor name) else .ok x

def evaluateFrom (aliases : Aliases) (context : Datum) (p : Progress α) :
    List Token → Except Fault (Evaluation α)
  | [] => do return ⟨p.steps, .ok (← valueOf p.items)⟩
  | .operator op :: rest => evaluateFrom aliases context (p.operator op) rest
  | .operand name :: rest => do
    match ← operandValue aliases context p name with
    | .error error => return ⟨p.steps, .error error⟩
    | .ok x => evaluateFrom aliases context (← p.operand name x) rest

def evaluate (aliases : Aliases) (context : Datum) (ts : List Token) :
    Except Fault (Evaluation α) :=
  evaluateFrom aliases context .start ts

end Renovation.Formula
