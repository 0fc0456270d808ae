import Renovation.Run

set_option autoImplicit false

/-!
# The command line

Options are words with a name and, unless they are switches, a value: `--name value` or
`--name=value`. The last value of an option counts. A word that starts with a hyphen is a value only
if it spells a negative number, is the hyphen alone or holds a space.
-/

namespace Renovation.CommandLine

inductive Field where
  | measures
  | context
  | residenceType
  | buildPeriod
  | currentUse
  | output
  | logFile
deriving DecidableEq

namespace Field

def all : List Field :=
  [measures, context, residenceType, buildPeriod, currentUse, output, logFile]

def name : Field → String
  | measures => "--measures"
  | context => "--context"
  | residenceType => "--residence-type"
  | buildPeriod => "--build-period"
  | currentUse => "--current-energy-use"
  | output => "--output"
  | logFile => "--log-file"

def ofName? (name : String) : Option Field := all.find? fun field => field.name == name

end Field

structure Options where
  fields : Field → Option String := fun _ => none
  splitPrices : Bool := false
  verbose : Bool := false

namespace Options

def give (o : Options) (field : Field) (value : String) : Options :=
  { o with fields := fun other => if other == field then some value else o.fields other }

end Options

def spellsMagnitude (cs : List Char) : Bool :=
  let isDigit (c : Char) : Bool := (Text.digitValue? c).isSome
  match cs.dropWhile isDigit with
  | [] => !cs.isEmpty
  | '.' :: fraction => !fraction.isEmpty && fraction.all isDigit
  | _ => false

def isValue (word : String) : Bool :=
  match word.toList with
  | '-' :: rest => rest.isEmpty || rest.contains ' ' || spellsMagnitude rest
  | _ => true

def splitWord? (word : String) : Option (Field × String) :=
  let cs := word.toList
  match cs.dropWhile (· != '=') with
  | '=' :: value =>
    (Field.ofName? (String.ofList (cs.takeWhile (· != '=')))).map (·, String.ofList value)
  | _ => none

/-- The options in a list of words, none if some word is not understood. -/
def Options.readFrom (o : Options) : List String → Option Options
  | [] => some o
  | [word] =>
    if word == "--split-prices" then some { o with splitPrices := true }
    else if word == "--verbose" then some { o with verbose := true }
    else (splitWord? word).map fun given => o.give given.1 given.2
  | word :: next :: rest =>
    if word == "--split-prices" then { o with splitPrices := true }.readFrom (next :: rest)
    else if word == "--verbose" then { o with verbose := true }.readFrom (next :: rest)
    else
      match splitWord? word, Field.ofName? word with
      | some given, _ => (o.give given.1 given.2).readFrom (next :: rest)
      | none, some field => if isValue next then (o.give field next).readFrom rest else none
      | none, none => none

def defaultOutput : String := "data/outputs"

structure Invocation where
  request : Request
  logFile : Option String
  verbose : Bool

def currentUse? (o : Options) : Option (Option Float) :=
  match o.fields .currentUse with
  | none => some none
  | some text => (Decimal.readDouble? text).map some

/-- The invocation that words ask for; none if an option is missing or not understood. -/
def invocation? (configurationPath : String) (words : List String) : Option Invocation := do
  let o ← Options.readFrom {} words
  let measures ← o.fields .measures
  let context ← o.fields .context
  let currentUse ← currentUse? o
  return {
    request := {
      measuresPath := Text.normalPath measures
      contextPath := Text.normalPath context
      configurationPath
      output := Text.normalPath ((o.fields .output).getD defaultOutput)
      residenceType := (o.fields .residenceType).getD "grondgebonden"
      buildPeriod := (o.fields .buildPeriod).getD ""
      splitPrices := o.splitPrices
      currentUse }
    logFile := o.fields .logFile
    verbose := o.verbose }

end Renovation.CommandLine
