import Renovation.Journal
import Renovation.Project
import Renovation.Report.Amount

set_option autoImplicit false

/-!
# Notes on a calculation

What the journal says about measures: what was left out in reading them, each line that has no
price, each measure that is invalid, and last the totals.
-/

namespace Renovation

namespace PriceLine

variable {α : Type} [Number α]

def notes (c : Circumstances) (line : PriceLine α) : Journal :=
  match line.evaluate c with
  | .ok _ => []
  | .error (.defect defect) =>
    [.warning s!"Price line '{line.name}' could not be parsed: {defect.message}"]
  | .error (.fault _) => [.error s!"Unexpected error while calculating '{line.name}'"]
  | .error (.evaluation _ _ error) =>
    [.warning s!"Price line '{line.name}' is invalid: {error.message}"]

end PriceLine

namespace Measure

variable {α : Type} [Number α]

def priced (c : Circumstances) (m : Measure α) : List (PriceLine α) :=
  if c.context.isNull then [] else m.lines ++ m.jobs.map (·.toPriceLine)

def notes (c : Circumstances) (m : Measure α) (r : MeasureResult α) : Journal :=
  (m.priced c).flatMap (PriceLine.notes c) ++
  if r.isValid then []
  else
    let error := r.investment.error.getD "None"
    [.warning s!"Measure '{r.name}' has invalid price lines: {error}"]

def storedNotes {α : Type} [Growth α] (c : Calculation α) (stored : Datum) :
    Except Fault Journal := do
  let m ← read stored
  return Mention.notes (mentions stored) ++ m.notes c.circumstances (← m.calculate c)

end Measure

namespace Project

def totalNotes (p : Project Float) : Journal :=
  let count := p.measures.length
  let investment := Report.consoleAmount p.investment
  let maintenance := Report.consoleCost p.maintenance
  let aggregates := p.measures.map (·.investment) ++ p.measures.map (·.maintenance)
  [.info (s!"Calculated {count} measures: investment {investment}, " ++
    s!"maintenance ({p.horizon.years}y) {maintenance}")] ++
  (if p.invalidMeasures.isEmpty then []
    else [.warning ("Measures with calculation errors: " ++ ", ".intercalate p.invalidMeasures)]) ++
  [.debug (summaryNotes aggregates)]

/-- The notes of a calculation that stops at a value without a text. -/
def notesBeforeFault {α : Type} [Growth α] (c : Calculation α) : List Datum → Journal
  | [] => []
  | stored :: rest =>
    match Measure.storedNotes c stored with
    | .ok notes => notes ++ notesBeforeFault c rest
    | .error _ => Mention.notesBeforeFault (Measure.mentions stored)

def notes (c : Calculation Float) (measures : List Datum) (p : Project Float) :
    Except Fault Journal := do
  return (← measures.mapM (Measure.storedNotes c)).flatten ++ p.totalNotes

end Project

end Renovation
