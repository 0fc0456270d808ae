import Renovation.CommandLine
import Renovation.Document.Reader

set_option autoImplicit false

/-!
# The program

Reads the documents a run needs, runs it, and writes what it leaves. A configuration file is
optional; without one the standard configuration is in force.
-/

namespace Renovation.Program

open CommandLine

def usage : String :=
  "usage: --measures FILE --context FILE [--residence-type TEXT] [--build-period TEXT] " ++
  "[--split-prices] [--current-energy-use NUMBER] [--output FOLDER] [--log-file FILE] [--verbose]"

def configurationPath : String := "config/config.json"

def readDocument (path : String) : IO (Option Datum) := do
  let text? ←
    try pure (some (← IO.FS.readFile path))
    catch
      | .noFileOrDirectory _ _ _ => pure none
      | error => throw error
  match text? with
  | none => return none
  | some text =>
    match Document.read? text with
    | some d => return some d
    | none => throw (IO.userError s!"Not a document: {path}")

def readInputs (request : Request) : IO Inputs := do
  let measures ← readDocument request.measuresPath
  let context ← readDocument request.contextPath
  let configuration ← readDocument request.configurationPath
  return { measures, context, configuration := some (configuration.getD Configuration.standard) }

def padded (width : Nat) (text : String) : String :=
  text ++ String.ofList (List.replicate (width - text.length) ' ')

def entryLine (entry : Entry) : String := s!"{padded 8 entry.level.name} | {entry.message}"

def writeJournal (invocation : Invocation) (journal : Journal) : IO Unit := do
  for entry in journal.shown invocation.verbose do
    IO.eprintln (entryLine entry)
  match invocation.logFile with
  | some path =>
    let lines := journal.map fun entry => entryLine entry ++ "\n"
    IO.FS.writeFile path (String.join lines)
  | none => return

def writeFiles (output : String) (files : List (String × String)) : IO Unit := do
  IO.FS.createDirAll output
  for (name, content) in files do
    IO.FS.writeFile (Text.pathIn output name) content

def execute (invocation : Invocation) : IO UInt32 := do
  let inputs ← readInputs invocation.request
  match run invocation.request inputs with
  | .error fault => throw (IO.userError fault.message)
  | .ok outcome =>
    writeJournal invocation outcome.journal
    writeFiles invocation.request.output outcome.files
    return outcome.status.code.toUInt32

end Renovation.Program

open Renovation in
def main (args : List String) : IO UInt32 := do
  match CommandLine.invocation? Program.configurationPath args with
  | none =>
    IO.eprintln Program.usage
    return Run.Status.stopped.code.toUInt32
  | some invocation =>
    try Program.execute invocation
    catch error =>
      IO.eprintln (toString error)
      return Run.Status.stopped.code.toUInt32
