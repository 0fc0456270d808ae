import Renovation.EnergyLabel
import Renovation.Maintenance.Recurrence
import Renovation.Settings

set_option autoImplicit false

/-!
# Configuration

The document that holds the settings, the horizon of maintenance and what energy labels need. Each
part is read on its own, and every reader puts standard values where the document has none.
-/

namespace Renovation.Configuration

def standard : Datum :=
  .record [
    ("project", .record [
      ("name", .text "Retrofit measure cost engine"), ("version", .text "1.0.0")]),
    ("settings", .record [
      ("hourlyLaborCost", .whole 51), ("vatPercentage", .whole 21),
      ("inflationPercentage", .whole 1), ("cornerHouseCorrection", .whole (-10)),
      ("abkMaterieel", .whole 5), ("afkoop", .whole 2), ("kostenPlanuitwerking", .whole 3),
      ("nazorgService", .real 1.5), ("carPiDicVerzekering", .whole 1), ("bankgarantie", .real 0.5),
      ("algemeneKosten", .whole 8), ("risico", .whole 2), ("winst", .whole 5),
      ("planvoorbereiding", .whole 3), ("huurdersbegeleiding", .whole 2),
      ("customFields", .list [])]),
    ("maintenance", .record [("horizon_years", .whole 40)]),
    ("energy", .record [
      ("co2_factor", .real 0.21), ("label_thresholds", .record EnergyLabel.standardBounds)])]

def load (path : String) : Option Datum → Except Fault Datum
  | none => .error (.configurationMissing path)
  | some document => .ok (document.orElse (.record []))

/-- A field of a record, or what stands in for it where the record has no such field. -/
def fieldOr (d : Datum) (name : String) (other : Datum) : Except Fault Datum :=
  match d with
  | .record fs => .ok ((fs.lookup name).getD other)
  | _ => .error (.noFields d)

/-- A standard value as people write it: whole where it has no fraction. -/
def writtenStandard (r : Rate) : Datum :=
  match Decimal.truncate r.standard with
  | .whole n => if Float.ofInt n == r.standard then .whole n else .real r.standard
  | _ => .real r.standard

/-- The value of a rate as a double. Where null is stored it is the standard value as written. -/
def mergedRate (fields : Datum.Fields) (r : Rate) : Except Fault Datum :=
  match fields.lookup r.key with
  | none => .ok (.real r.standard)
  | some .null => .ok (writtenStandard r)
  | some stored =>
    match stored.toDouble with
    | .ok x => .ok (.real x)
    | .error fault =>
      match fault.family with
      | .wrongKind | .invalidValue => .error (.settingNotNumeric r.key stored)
      | _ => .error fault

def standardRates : Datum.Fields := Rate.all.map fun r => (r.key, .real r.standard)

/-- Stored settings over the standard ones. Every rate is a number; other fields stay as they
are. -/
def mergeSettings (stored : Datum) : Except Fault Datum.Fields := do
  let fields ← stored.toFields
  let rates ← Rate.all.mapM fun r => do return (r.key, ← mergedRate fields r)
  return (Entries.update standardRates fields).update rates

def settings (configuration : Datum) : Except Fault Datum.Fields := do
  mergeSettings (← fieldOr configuration "settings" (.record []))

def horizonYears (stored : Datum) : Except Fault Int :=
  match stored.toWhole with
  | .ok n => if n ≤ 0 then .error .horizonNotPositive else .ok n
  | .error fault =>
    match fault.family with
    | .wrongKind | .invalidValue => .error .horizonNotWhole
    | _ => .error fault

def horizon (configuration : Datum) : Except Fault Maintenance.Horizon := do
  let part ← fieldOr configuration "maintenance" (.record [])
  return ⟨← horizonYears (← fieldOr part "horizon_years" (.whole 40))⟩

def maintenance (configuration : Datum) : Except Fault Datum.Fields := do
  let years := (← horizon configuration).years
  let part := (configuration.field "maintenance").fields?.getD []
  return part.put "horizon_years" (.whole years)

structure Energy where
  carbonFactor : Float
  /-- As stored, null where nothing is stored. -/
  bounds : Datum

def energy (configuration : Datum) : Except Fault Energy := do
  let part ← fieldOr configuration "energy" (.record [])
  let factor ← (← fieldOr part "co2_factor" (.real EnergyLabel.carbonFactor)).toDouble
  let bounds ← fieldOr part "label_thresholds" .null
  return ⟨factor, bounds.orElse .null⟩

def labelBounds (e : Energy) : Except Fault EnergyLabel.Bounds :=
  match e.bounds with
  | .null => .ok EnergyLabel.standardBounds
  | .record fs => .ok fs
  | d => .error (.noFields d)

end Renovation.Configuration
