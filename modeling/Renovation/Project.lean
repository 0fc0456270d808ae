import Renovation.Measure.Result

set_option autoImplicit false

/-!
# Projects

The measures chosen for a dwelling, with their totals. An invalid measure adds nothing to the
investment but stays in the list.
-/

namespace Renovation

structure Project (α : Type) where
  investment : α
  heatDemand : α
  maintenance : Cost α
  maintenancePerYear : Cost α
  highestNuisance : α
  horizon : Maintenance.Horizon
  measures : List (MeasureResult α)
  warnings : List String

namespace Project

variable {α : Type} [Number α]

def costOfOwnership (p : Project α) : Cost α := .real p.investment + p.maintenance

def invalidMeasures (p : Project α) : List String :=
  (p.measures.filter (!·.isValid)).map (·.name)

def empty (horizon : Maintenance.Horizon) : Project α := ⟨0, 0, 0, 0, 0, horizon, [], []⟩

def add (p : Project α) (r : MeasureResult α) : Project α :=
  { p with
    investment := p.investment + r.price
    heatDemand := p.heatDemand + r.heatDemand
    maintenance := p.maintenance + r.projection.total
    maintenancePerYear := p.maintenancePerYear + r.projection.perYear
    highestNuisance := Number.greater p.highestNuisance r.nuisance
    measures := p.measures ++ [r]
    warnings := p.warnings ++ r.warnings.map fun message => s!"{r.name}: {message}" }

def ofResults (horizon : Maintenance.Horizon) (results : List (MeasureResult α)) : Project α :=
  results.foldl add (empty horizon)

/-- Calculate stored measures and add them up. The horizon has to have a text, which the totals are
told with. -/
def calculate {α : Type} [Growth α] (c : Calculation α) (measures : List Datum) :
    Except Fault (Project α) := do
  let results ← measures.mapM (Measure.calculateStored c)
  (Datum.whole c.horizon.years).requireWritable
  return ofResults c.horizon results

end Project

end Renovation
