import Renovation.Formula.Evaluation
import Renovation.PriceLine

set_option autoImplicit false

/-!
# Priced lines

The quantity of a line is the value of its formula in a context, and its total is quantity times
price. Whatever goes wrong on the way makes that one line invalid, with an explanation; it never
stops a calculation. `Aggregate` adds up the valid lines of a measure.
-/

namespace Renovation

structure LineResult (α : Type) where
  name : String
  unitPrice : α
  quantity : α
  total : α
  unit : Datum
  steps : List (Formula.Step α) := []
  isValid : Bool := true
  error : Option String := none
  warnings : List String := []
  /-- Prices by residence type were in force. -/
  byType : Bool := false

inductive LineFailure (α : Type) where
  | defect (defect : LineDefect)
  | fault (fault : Fault)
  | evaluation (unitPrice : α) (steps : List (Formula.Step α)) (error : Formula.EvaluationError)

namespace LineFailure

variable {α : Type}

def message : LineFailure α → String
  | defect d => "Fout in berekening: " ++ d.message
  | fault f => "Fout in berekening: " ++ f.message
  | evaluation _ _ error => error.message

end LineFailure

/-- What prices depend on besides the line. Everything but the switch is as stored. -/
structure Circumstances where
  context : Datum
  residenceType : Datum := .text ""
  splitPrices : Bool := false
  aliases : Formula.Aliases := Formula.standardAliases

variable {α : Type} [Number α]

namespace PriceLine

/-- The price of a unit: the residence type's own price if prices are split and there is one, else
the line's price, else zero. -/
def unitPrice (line : PriceLine α) (residenceType : Datum) (splitPrices : Bool) : Except Fault α :=
  let flat := line.price.getD 0
  match splitPrices, line.typePrices with
  | true, some prices => do return (prices (← ResidenceType.classify residenceType)).getD flat
  | _, _ => .ok flat

structure Priced (α : Type) where
  quantity : α
  unitPrice : α
  steps : List (Formula.Step α)

def evaluate (line : PriceLine α) (c : Circumstances) : Except (LineFailure α) (Priced α) :=
  match line.defect with
  | some defect => .error (.defect defect)
  | none =>
    let attempt : Except Fault (Formula.Evaluation α × α) := do
      let evaluation ← Formula.evaluate c.aliases c.context line.formula
      return (evaluation, ← line.unitPrice c.residenceType c.splitPrices)
    match attempt with
    | .error fault => .error (.fault fault)
    | .ok (evaluation, unitPrice) =>
      match evaluation.outcome with
      | .ok quantity => .ok ⟨quantity, unitPrice, evaluation.steps⟩
      | .error error => .error (.evaluation unitPrice evaluation.steps error)

end PriceLine

namespace LineResult

def invalid (name : String) (unit : Datum) (failure : LineFailure α) : LineResult α :=
  let (unitPrice, steps) :=
    match failure with
    | .evaluation unitPrice steps _ => (unitPrice, steps)
    | _ => (0, [])
  { name, unitPrice, quantity := 0, total := 0, unit, steps, isValid := false
    error := some failure.message, warnings := [failure.message] }

def ofLine (c : Circumstances) (line : PriceLine α) : LineResult α :=
  match line.evaluate c with
  | .error failure => invalid line.name line.unit failure
  | .ok priced =>
    { name := line.name
      unitPrice := priced.unitPrice
      quantity := priced.quantity
      total := priced.quantity * priced.unitPrice
      unit := line.unit
      steps := priced.steps
      byType := c.splitPrices && line.typePrices.isSome }

def ofJob (c : Circumstances) (job : Job α) : LineResult α := ofLine c job.toPriceLine

/-- The result of a stored record, also where reading it ends with a fault. -/
def ofStored (c : Circumstances) (stored : Datum) : LineResult α :=
  match PriceLine.read stored with
  | .ok line => ofLine c line
  | .error fault => invalid unnamed (.text "m²") (.fault fault)

end LineResult

structure Aggregate (α : Type) where
  price : α
  lines : List (LineResult α)
  isValid : Bool
  error : Option String
  warnings : List String

namespace Aggregate

/-- Nothing to calculate is an error. -/
def nothing : Aggregate α :=
  ⟨0, [], false, some "Geen berekeningen of data beschikbaar", []⟩

/-- No jobs is no error. -/
def noJobs : Aggregate α := ⟨0, [], true, none, []⟩

def errors (lines : List (LineResult α)) : List String :=
  lines.filterMap fun line => if line.isValid then none else line.error

def ofLines (lines : List (LineResult α)) : Aggregate α :=
  let errors := errors lines
  { price := Number.sum ((lines.filter (·.isValid)).map (·.total))
    lines
    isValid := lines.all (·.isValid)
    error := if errors.isEmpty then none else some ("; ".intercalate errors)
    warnings := lines.flatMap (·.warnings) }

/-- Price each item and add up; without items or context there is nothing to calculate. -/
def ofItems {ι : Type} (c : Circumstances) (price : Circumstances → ι → LineResult α)
    (items : List ι) : Aggregate α :=
  if items.isEmpty || c.context.isNull then nothing else ofLines (items.map (price c))

end Aggregate

def summaryNotes (aggregates : List (Aggregate α)) : String :=
  let lines := aggregates.flatMap (·.lines)
  let failed := (lines.filter (!·.isValid)).length
  let byType := (lines.filter (·.byType)).length
  " ".intercalate <|
    [s!"{lines.length} price lines evaluated."] ++
    (if failed == 0 then [] else [s!"{failed} lines could not be calculated."]) ++
    (if byType == 0 then [] else [s!"Per-type prices used for {byType} lines."])

end Renovation
