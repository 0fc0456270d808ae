import Renovation.Budget
import Renovation.Configuration
import Renovation.Document.Writer
import Renovation.Dwellings
import Renovation.File
import Renovation.Project.Notes
import Renovation.Report.Csv
import Renovation.Report.Overview
import Renovation.RunLog
import Renovation.Text.Path

set_option autoImplicit false

/-!
# Runs

A whole calculation from stored documents to reports: load the inputs, price the measures, estimate
the energy label, write the reports. A run is a list of events, notes for the journal and actions on
the run log; the journal and the log are what the events come to. What a person can mend ends the
run with a note, be it while it loads, while it reads the measures or while it writes a report.
-/

namespace Renovation

structure Request where
  measuresPath : String
  contextPath : String
  configurationPath : String
  output : String
  residenceType : String
  buildPeriod : String
  splitPrices : Bool
  currentUse : Option Float

structure Inputs where
  measures : Option Datum
  context : Option Datum
  configuration : Option Datum

namespace Run

/-! ## Events -/

inductive Event where
  | note (entry : Entry)
  | act (action : RunLog.Action)

def notes (journal : Journal) : List Event := journal.map .note

def actions (actions : List RunLog.Action) : List Event := actions.map .act

structure Record where
  log : RunLog := {}
  journal : Journal := []

def Record.add (r : Record) : Event → Record
  | .note entry => { r with journal := r.journal ++ [entry] }
  | .act action => { log := r.log.apply action, journal := r.journal ++ r.log.notes action }

def record (events : List Event) : Record := events.foldl Record.add {}

/-! ## Inputs -/

def document (path : String) : Option Datum → Except Fault Datum
  | none => .error (.inputMissing path)
  | some d => .ok d

/-- Measures come as a list, or as a record with one. -/
def measures (path : String) (d : Datum) : Except Fault (List Datum) :=
  let stored :=
    match d with
    | .record fs => (fs.lookup "measures").getD (.list [])
    | d => d
  match stored with
  | .list items => .ok items
  | _ => .error (.measuresExpected path)

def context (path : String) (d : Datum) : Except Fault Datum :=
  if d.isRecord then .ok d else .error (.contextExpected path)

structure Loaded where
  measures : List Datum
  context : Datum
  settings : Settings Float
  energy : Configuration.Energy
  horizon : Maintenance.Horizon

/-- The first input that cannot be used ends the loading. -/
def load (request : Request) (inputs : Inputs) : Except Fault Loaded := do
  let measures ← measures request.measuresPath (← document request.measuresPath inputs.measures)
  let context ← context request.contextPath (← document request.contextPath inputs.context)
  let configuration ← Configuration.load request.configurationPath inputs.configuration
  let settings ← Settings.ofFields (← Configuration.settings configuration)
  let energy ← Configuration.energy configuration
  let horizon ← Configuration.horizon configuration
  return { measures, context, settings, energy, horizon }

def Loaded.calculation (l : Loaded) (request : Request) : Calculation Float where
  circumstances := {
    context := l.context
    residenceType := .text request.residenceType
    splitPrices := request.splitPrices }
  buildPeriod := .text request.buildPeriod
  inflation := l.settings.rate .inflation
  horizon := l.horizon

/-! ## Results -/

structure Results where
  project : Project Float
  budget : Budget Float
  label? : Option EnergyLabel.Improvement
  /-- What the calculation told the journal. -/
  journal : Journal

def label? (l : Loaded) (currentUse : Option Float) (heatDemand : Float) :
    Except Fault (Option EnergyLabel.Improvement) :=
  match currentUse with
  | none => .ok none
  | some use => do
    let bounds ← Configuration.labelBounds l.energy
    return some (← EnergyLabel.improvement (.real use) (.real heatDemand) bounds)

def results (request : Request) (l : Loaded) : Except Fault Results := do
  let calculation := l.calculation request
  let project ← Project.calculate calculation l.measures
  let journal ← project.notes calculation l.measures
  let units ← Dwellings.count l.context
  let budget ← Budget.calculate project.investment l.settings units.toNat
  let label? ← label? l request.currentUse project.heatDemand
  return { project, budget, label?, journal }

/-! ## Phases -/

def rule : String := String.ofList (List.replicate 70 '=')

/-- A heading between two rules; `gap` stands before it. -/
def banner (gap heading : String) : List Event :=
  notes [.info (gap ++ rule), .info heading, .info rule]

def metric (key : String) (value : LogValue) (description : String) : RunLog.Action :=
  .addMetric key value (.text description)

def start (name description : String) : RunLog.Action :=
  .startPhase (.text name) (.text description)

def done : RunLog.Action := .completePhase true (.text "")

def opening (request : Request) : List Event :=
  actions [
    .setMetadata "residence_type" (.text request.residenceType),
    .setMetadata "build_period" (.text request.buildPeriod),
    .setMetadata "split_prices" (.flag request.splitPrices)] ++
  banner "" "PHASE 1: LOAD INPUTS" ++
  actions [start "Load inputs" "Read measures, calculation context and settings"]

def loading (l : Loaded) : List Event :=
  actions [
    metric "measures" (.whole l.measures.length) "Measures selected",
    metric "inflation_percentage" (.real (l.settings.rate .inflation)) "",
    metric "horizon_years" (.whole l.horizon.years) "Maintenance horizon",
    done]

def isComplex : Cost Float → Bool
  | .real _ => false
  | .complex _ _ => true

/-- A cost as a log holds it, which a complex cost has no value for. -/
def costValue : Cost Float → LogValue
  | .real x => .real x
  | .complex _ _ => .null

def pricingStart : List Event :=
  banner "\n" "PHASE 2: PRICE MEASURES" ++
  actions [start "Price measures" "Evaluate price formulas and project maintenance"]

def pricing (r : Results) : List Event :=
  let invalid := r.project.invalidMeasures
  pricingStart ++ notes r.journal ++
  actions [
    metric "total_investment" (.real r.project.investment) "Direct costs of valid measures",
    metric "final_amount" (.real r.budget.withVat) "Budget incl. markups and VAT",
    metric "maintenance_40_years" (costValue r.project.maintenance)
      s!"Maintenance over {r.project.horizon.years} years",
    metric "invalid_measures" (.list (invalid.map .text)) "",
    .completePhase invalid.isEmpty (.text ("; ".intercalate r.project.warnings))]

def labelChange (label : EnergyLabel.Improvement) : String :=
  s!"{label.currentLabel} -> {label.newLabel}"

def labelling (l : Loaded) (r : Results) : List Event :=
  banner "\n" "PHASE 3: ENERGY LABEL" ++
  match r.label? with
  | none => actions [.skipPhase (.text "Energy label") (.text "No current energy use given")]
  | some label =>
    let heatDemand := r.project.heatDemand
    let saved := EnergyLabel.carbonReduction heatDemand l.energy.carbonFactor
    actions [
      start "Energy label" "Estimate the label after the heat-demand reduction",
      metric "total_heat_demand" (.real heatDemand) "",
      metric "co2_reduction" (.real saved) "",
      metric "steps_improved" (.whole label.steps) (labelChange label),
      done]

/-! ## Reports -/

def tableName : String := "measure_summary.csv"
def overviewName : String := "summary.md"
def logName : String := "calculation_log.json"

def reportingStart : List Event :=
  banner "\n" "PHASE 4: REPORTING" ++
  actions [start "Reporting" "Write measure table and cost overview"]

def closing (r : Results) : List Event :=
  let investment := Report.consoleAmount r.project.investment
  let withVat := Report.consoleAmount r.budget.withVat
  let ownership := Report.consoleCost r.project.costOfOwnership
  notes ([
    .info s!"✓ Investment: € {investment} (incl. VAT € {withVat})",
    .info s!"✓ TCO ({r.project.horizon.years} years): € {ownership}"] ++
    match r.label? with
    | some label => [.info s!"✓ Energy label: {labelChange label}"]
    | none => [])

/-- A file to write: what happens before, its name, and its pieces unless there is to be no file. -/
structure Task where
  before : List Event
  name : String
  pieces : Except Fault (List (Except Fault String))

/-- The files of a run so far, with what stopped it, if anything did. -/
structure Writing where
  events : List Event
  files : List (String × String) := []
  fault? : Option Fault := none

def Writing.add (w : Writing) (t : Task) : Writing :=
  match w.fault?, t.pieces with
  | some _, _ => w
  | none, .error fault => { w with events := w.events ++ t.before, fault? := some fault }
  | none, .ok pieces =>
    let file := File.write pieces
    { events := w.events ++ t.before
      files := w.files ++ [(t.name, file.content)]
      fault? := file.fault? }

def eventsToTable (request : Request) (l : Loaded) (r : Results) : List Event :=
  opening request ++ loading l ++ pricing r ++ labelling l r ++ reportingStart

def eventsToOverview (output : String) : List Event :=
  notes [.info s!"Saved measure summary to {Text.pathIn output tableName}"]

def eventsToLog (output : String) : List Event :=
  let table := Text.pathIn output tableName
  let overview := Text.pathIn output overviewName
  notes [.info s!"Saved cost overview to {overview}"] ++
  actions [
    .addOutput table (.text "csv") (.text "One row per measure"),
    .addOutput overview (.text "report") (.text "Cost overview"),
    done, .save]

def savedLog (request : Request) (l : Loaded) (r : Results) : Datum :=
  (record (eventsToTable request l r ++ eventsToOverview request.output ++
    eventsToLog request.output)).log.payload

/-- A complex cost has no written form: the log ends in front of the phase it belongs to. -/
def logPieces (request : Request) (l : Loaded) (r : Results) : List (Except Fault String) :=
  if isComplex r.project.maintenance then
    Document.pieces .indented 0 "" (record (opening request ++ loading l)).log.payload ++
      [.error .unwritable]
  else Document.pieces .indented 0 "" (savedLog request l r)

def tasks (request : Request) (l : Loaded) (r : Results) : List Task :=
  [⟨eventsToTable request l r, tableName, .ok (Report.tablePieces r.project)⟩,
    ⟨eventsToOverview request.output, overviewName,
      Report.overviewPieces r.project (some r.budget) r.label?⟩,
    ⟨eventsToLog request.output, logName, .ok (logPieces request l r)⟩]

inductive Status where
  | allValid
  | someInvalid
  | stopped
deriving DecidableEq

def Status.code : Status → Nat
  | allValid => 0
  | someInvalid => 1
  | stopped => 2

structure Outcome where
  status : Status
  journal : Journal
  /-- Name and content of each file that was opened. -/
  files : List (String × String)

/-- What a person can mend is told, anything else is not caught. -/
def stopped (events : List Event) (files : List (String × String)) (fault : Fault) :
    Except Fault Outcome :=
  if fault.isInputError then
    .ok {
      status := .stopped
      journal := (record events).journal ++ [.error s!"Calculation failed: {fault.message}"]
      files }
  else .error fault

def written (request : Request) (l : Loaded) (r : Results) : Writing :=
  (tasks request l r).foldl Writing.add { events := [] }

def Writing.outcome (w : Writing) (request : Request) (r : Results) : Except Fault Outcome :=
  match w.fault? with
  | some fault => stopped w.events w.files fault
  | none =>
    let saved := notes [.info s!"Calculation log saved to {Text.pathIn request.output logName}"]
    .ok {
      status := if r.project.invalidMeasures.isEmpty then .allValid else .someInvalid
      journal := (record (w.events ++ saved ++ closing r)).journal
      files := w.files }

def reported (request : Request) (l : Loaded) (r : Results) : Except Fault Outcome :=
  (written request l r).outcome request r

def eventsBeforeFault (request : Request) (l : Loaded) : List Event :=
  opening request ++ loading l ++ pricingStart ++
    notes (Project.notesBeforeFault (l.calculation request) l.measures)

def calculated (request : Request) (l : Loaded) : Except Fault Outcome :=
  match results request l with
  | .error fault => stopped (eventsBeforeFault request l) [] fault
  | .ok r => reported request l r

end Run

def run (request : Request) (inputs : Inputs) : Except Fault Run.Outcome :=
  match Run.load request inputs with
  | .error fault => Run.stopped (Run.opening request) [] fault
  | .ok loaded => Run.calculated request loaded

end Renovation
