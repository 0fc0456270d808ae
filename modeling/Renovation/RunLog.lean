import Renovation.Fault
import Renovation.Journal
import Renovation.RunLog.Value

set_option autoImplicit false

/-!
# The log of a run

A run goes through phases. `RunLog` holds the phases that are over and the one that is active, with
what was measured and written in each. `apply` says what one action does to the log, `after` what a
history of actions comes to, and `payload` what is saved.
-/

namespace Renovation

inductive PhaseStatus where
  | inProgress
  | completed
  | failed
  | skipped
deriving DecidableEq

namespace PhaseStatus

def name : PhaseStatus → String
  | inProgress => "in_progress"
  | completed => "completed"
  | failed => "failed"
  | skipped => "skipped"

end PhaseStatus

structure Metric where
  value : LogValue
  description : Datum

structure PhaseOutput where
  path : String
  type : Datum
  description : Datum

structure Phase where
  number : Nat
  /-- Callers may name a phase by any stored value. -/
  name : Datum
  description : Datum := .text ""
  status : PhaseStatus := .inProgress
  message : Datum := .text ""
  metrics : Entries Metric := []
  outputs : List PhaseOutput := []

structure RunLog where
  metadata : Entries LogValue := []
  phases : List Phase := []
  current : Option Phase := none

namespace RunLog

inductive Action where
  | setMetadata (key : String) (value : LogValue)
  | startPhase (name description : Datum)
  | addMetric (key : String) (value : LogValue) (description : Datum)
  | addOutput (path : String) (type description : Datum)
  | completePhase (success : Bool) (message : Datum)
  | skipPhase (name reason : Datum)
  | save

def empty : RunLog := {}

def nextNumber (log : RunLog) : Nat := log.phases.length + 1

def closed (phase : Phase) (success : Bool) (message : Datum) : Phase :=
  { phase with status := if success then .completed else .failed, message }

def skipped (number : Nat) (name reason : Datum) : Phase :=
  { number, name, status := .skipped, message := reason }

/-- The active phase is over; without one nothing happens. -/
def complete (log : RunLog) (success : Bool) (message : Datum) : RunLog :=
  match log.current with
  | none => log
  | some phase =>
    { log with
      phases := log.phases ++ [closed phase success message]
      current := none }

def addMetric (phase : Phase) (key : String) (metric : Metric) : Phase :=
  { phase with metrics := phase.metrics.put key metric }

def addOutput (phase : Phase) (output : PhaseOutput) : Phase :=
  { phase with outputs := phase.outputs ++ [output] }

def apply (log : RunLog) : Action → RunLog
  | .setMetadata key value => { log with metadata := log.metadata.put key value }
  | .startPhase name description =>
    let log := log.complete true (.text "Auto-completed")
    { log with current := some { number := log.nextNumber, name, description } }
  | .addMetric key value description =>
    { log with current := log.current.map (addMetric · key ⟨value, description⟩) }
  | .addOutput path type description =>
    { log with current := log.current.map (addOutput · ⟨path, type, description⟩) }
  | .completePhase success message => log.complete success message
  | .skipPhase name reason =>
    { log with phases := log.phases ++ [skipped log.nextNumber name reason] }
  | .save => log.complete true (.text "Auto-completed at save")

def after (history : List Action) : RunLog := history.foldl apply empty

/-! ## What is saved -/

def metricFields (m : Metric) : Datum :=
  .record [("value", m.value.plain), ("description", m.description)]

def outputFields (o : PhaseOutput) : Datum :=
  .record [("path", .text o.path), ("type", o.type), ("description", o.description)]

def phaseFields (p : Phase) : Datum :=
  .record [
    ("number", .whole p.number), ("name", p.name), ("description", p.description),
    ("status", .text p.status.name), ("message", p.message),
    ("metrics", .record (p.metrics.map fun m => (m.1, metricFields m.2))),
    ("outputs", .list (p.outputs.map outputFields))]

def count (log : RunLog) (status : PhaseStatus) : Nat :=
  (log.phases.filter (·.status == status)).length

def summary (log : RunLog) : Datum :=
  .record [
    ("total_phases", .whole log.phases.length),
    ("successful", .whole (log.count .completed)),
    ("failed", .whole (log.count .failed)),
    ("skipped", .whole (log.count .skipped))]

def payload (log : RunLog) : Datum :=
  .record [
    ("metadata", .record (log.metadata.map fun m => (m.1, m.2.plain))),
    ("phases", .list (log.phases.map phaseFields)),
    ("summary", log.summary)]

def fileIn (folder name : String) : Except Fault String :=
  let file := Text.normalPath name
  if file == "." || file == ".." then .error .folderGiven
  else if file.contains '/' then .error (.folderMissing (Text.pathIn folder name))
  else .ok file

/-! ## What the console is told -/

def completionNotes (log : RunLog) (success : Bool) : Journal :=
  match log.current with
  | none => [.warning "Cannot complete phase - no active phase"]
  | some phase =>
    let mark := if success then "✓" else "✗"
    let status := (closed phase success .null).status
    [.info s!"{mark} Phase {phase.number} {status.name}: {phase.name.toText}"]

def notes (log : RunLog) : Action → Journal
  | .setMetadata _ _ => []
  | .startPhase name _ =>
    let before := if log.current.isSome then log.completionNotes true else []
    let number := (log.complete true .null).nextNumber
    before ++ [.info s!"Starting phase {number}: {name.toText}"]
  | .addMetric key _ _ =>
    if log.current.isSome then [] else [.warning s!"Cannot add metric '{key}' - no active phase"]
  | .addOutput path _ _ =>
    if log.current.isSome then [] else [.warning s!"Cannot add output '{path}' - no active phase"]
  | .completePhase success _ => log.completionNotes success
  | .skipPhase name reason => [.info s!"⊘ Phase skipped: {name.toText} - {reason.toText}"]
  | .save => if log.current.isSome then log.completionNotes true else []

end RunLog

end Renovation
