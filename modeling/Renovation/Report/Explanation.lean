import Renovation.Maintenance.Projection
import Renovation.Report.Amount

set_option autoImplicit false

/-!
# Explanations

A price explained as a sum that can be checked by hand: the operands of the formula joined by their
operators, the quantity they come to, and the price of a unit. A job is explained by its cycle.
-/

namespace Renovation.Report

open Formula

def countsDwellings (name : String) : Bool := name == "aantalWoningen" || name == "AantalWoningen"

def printedSign : Operator → String
  | .times => "×"
  | .dividedBy => "÷"
  | op => op.symbol

def explainOperand (step : Step Float) : String :=
  dutch 2 step.value ++ if countsDwellings step.name then " woningen" else ""

/-- The operands in order; only the first stands without its operator. -/
def explainSteps : List (Step Float) → String
  | [] => ""
  | first :: rest =>
    explainOperand first ++
      String.join (rest.map fun step => s!" {printedSign step.operator} {explainOperand step}")

def explainQuantity (line : LineResult Float) : String :=
  s!"{dutch 2 line.quantity} {line.unit.toText} × €{dutch 2 line.unitPrice}"

/-- `(2,00 woningen × 10,00 = 20,00 m² × €5,00)` -/
def explainLine (line : LineResult Float) : String :=
  if line.steps.isEmpty then s!"({explainQuantity line})"
  else s!"({explainSteps line.steps} = {explainQuantity line})"

/-- `€ 100,00 elke 10 jaar (€ 10,00 per jaar)` -/
def explainJob (line : LineResult Float) (job? : Option (Job Float)) : String :=
  match job?.filter Job.recurs with
  | none => s!"{euro 2 line.total} (geen cyclus)"
  | some job =>
    let yearly := euro 2 (Maintenance.yearlyCost line job)
    s!"{euro 2 line.total} elke {Decimal.generalText job.cycle} jaar ({yearly} per jaar)"

end Renovation.Report
