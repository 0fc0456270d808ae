import Renovation.Budget
import Renovation.EnergyLabel
import Renovation.File
import Renovation.Project
import Renovation.Report.Explanation

set_option autoImplicit false

/-!
# The overview

A document in markdown with the totals of a project, the budget and the energy label if there are
any, every price line with its explanation, every job with its cycle, and the warnings.
-/

namespace Renovation.Report

def totals (p : Project Float) (budget? : Option (Budget Float))
    (label? : Option EnergyLabel.Improvement) : List String :=
  let years := p.horizon.years
  [s!"- Investering (directe kosten): {euro 2 p.investment}"] ++
  (match budget? with
    | some budget =>
      [s!"- Totaal incl. BTW: {euro 2 budget.withVat}",
        s!"- Totaal excl. BTW: {euro 2 budget.withoutVat}"]
    | none => []) ++
  [s!"- Onderhoudskosten per jaar: {euroCost p.maintenancePerYear}",
    s!"- Onderhoudskosten {years} jaar: {euroCost p.maintenance}",
    s!"- TCO ({years} jaar): {euroCost p.costOfOwnership}",
    s!"- Warmtebehoefte: {dutch 1 p.heatDemand}"] ++
  (if Number.below 0 p.highestNuisance then
    [s!"- Hinder indicator: {dutch 1 p.highestNuisance}"] else []) ++
  (match label? with
    | some label => [s!"- Energielabel: {label.currentLabel} → {label.newLabel}"]
    | none => [])

def heading (r : MeasureResult Float) : String :=
  s!"### {r.name}" ++ if r.isValid then "" else " (onvolledig)"

def lineText (line : LineResult Float) : String :=
  if line.isValid then s!"- {line.name}: {euro 2 line.total} {explainLine line}"
  else "- " ++ line.name ++ ": ⚠ " ++ line.error.getD "None"

def jobNamed (jobs : List (Job Float)) (name : String) : Option (Job Float) :=
  jobs.reverse.find? fun job => job.name == name

def jobText (jobs : List (Job Float)) (line : LineResult Float) : String :=
  s!"- {line.name}: {explainJob line (jobNamed jobs line.name)}"

def upkeepSection (horizon : Maintenance.Horizon) (r : MeasureResult Float) : List String :=
  if r.maintenance.lines.isEmpty then []
  else
    ["", "Onderhoud:"] ++ r.maintenance.lines.map (jobText r.jobs) ++
    [s!"- Totaal over {horizon.years} jaar: {euroCost r.projection.total} " ++
      s!"({euroCost r.projection.perYear} p.j.)"]

def measureSection (horizon : Maintenance.Horizon) (r : MeasureResult Float) : List String :=
  ["", heading r, ""] ++ r.investment.lines.map lineText ++ upkeepSection horizon r

def warningSection (warnings : List String) : List String :=
  if warnings.isEmpty then []
  else ["", "## Waarschuwingen", ""] ++ warnings.map ("- " ++ ·)

def overviewLines (p : Project Float) (budget? : Option (Budget Float))
    (label? : Option EnergyLabel.Improvement) : List String :=
  ["# Kostenoverzicht", "", "## Resultaten", ""] ++ totals p budget? label? ++
  ["", "## Maatregelen"] ++ p.measures.flatMap (measureSection p.horizon) ++
  warningSection p.warnings

def overview (p : Project Float) (budget? : Option (Budget Float))
    (label? : Option EnergyLabel.Improvement) : String :=
  "\n".intercalate (overviewLines p budget? label?) ++ "\n"

/-- What the overview shows as it is stored: the horizon, and the units of the valid lines. -/
def overviewValues (p : Project Float) : List Datum :=
  .whole p.horizon.years ::
    p.measures.flatMap fun r => (r.investment.lines.filter (·.isValid)).map (·.unit)

/-- There is no overview if one of its values has no text. -/
def markdown (p : Project Float) (budget? : Option (Budget Float))
    (label? : Option EnergyLabel.Improvement) : Except Fault String :=
  if (overviewValues p).all Datum.isWritable then .ok (overview p budget? label?)
  else .error .tooManyDigits

def overviewPieces (p : Project Float) (budget? : Option (Budget Float))
    (label? : Option EnergyLabel.Improvement) : Except Fault (List (Except Fault String)) := do
  return [File.encode (← markdown p budget? label?)]

end Renovation.Report
