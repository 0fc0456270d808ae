import Renovation.Datum.Conversion
import Renovation.ResidenceType

set_option autoImplicit false

/-!
# Heat demand

How far a measure brings the heat demand down. A measure keeps a table with a list for each type of
residence, whose entries give a value for a period of construction.
-/

namespace Renovation.HeatDemand

/-- The list for a type. For the ground level the older spelling of its field stands in. -/
def listFor (table : Datum) (type : ResidenceType) : Datum :=
  let stored := table.field type.key
  if stored.isBlank && type == .groundLevel then table.field ResidenceType.olderGroundKey
  else stored

def isFor (period entry : Datum) : Bool :=
  entry.isRecord && (entry.field "period").same period

def inPeriod (period : Datum) (entries : List Datum) : Except Fault Float :=
  match entries.find? (isFor period) with
  | some entry => (entry.field "value").numberOrZero
  | none => .ok 0.0

def reduction (table residenceType period : Datum) : Except Fault Float := do
  if !table.isRecord then return 0.0
  match listFor table (← ResidenceType.classify residenceType) with
  | .list entries => inPeriod period entries
  | _ => return 0.0

def ofStored (measure residenceType period : Datum) : Except Fault Float :=
  reduction (measure.field "heat_demand") residenceType period

end Renovation.HeatDemand
