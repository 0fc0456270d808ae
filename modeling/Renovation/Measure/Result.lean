import Renovation.HeatDemand
import Renovation.Maintenance.Projection
import Renovation.Measure
import Renovation.PriceLine.Result

set_option autoImplicit false

/-!
# Measures in a dwelling

What a measure costs in one dwelling: the investment, the maintenance for one occurrence of each
job, its projection over the horizon, and the heat demand it saves.
-/

namespace Renovation

structure MeasureResult (α : Type) where
  name : String
  group : Datum
  investment : Aggregate α
  maintenance : Aggregate α
  projection : Maintenance.Projection α
  heatDemand : α
  nuisance : α
  jobs : List (Job α)

namespace MeasureResult

variable {α : Type} [Number α]

def isValid (r : MeasureResult α) : Bool := r.investment.isValid

/-- The investment that counts towards a total: nothing where a line failed. -/
def price (r : MeasureResult α) : α := if r.isValid then r.investment.price else 0

def warnings (r : MeasureResult α) : List String :=
  r.investment.warnings ++ r.maintenance.warnings ++ r.projection.warnings

end MeasureResult

structure Calculation (α : Type) where
  circumstances : Circumstances
  buildPeriod : Datum := .text ""
  inflation : α
  horizon : Maintenance.Horizon := .standard

namespace Measure

variable {α : Type} [Growth α]

def upkeep (c : Calculation α) (m : Measure α) :
    Except Fault (Aggregate α × Maintenance.Projection α) :=
  if m.jobs.isEmpty then .ok (.noJobs, .empty)
  else
    let maintenance := Aggregate.ofItems c.circumstances LineResult.ofJob m.jobs
    do
      let jobs := m.jobs.map some
      return (maintenance, ← Maintenance.projectLines c.horizon c.inflation maintenance.lines jobs)

def calculate (c : Calculation α) (m : Measure α) : Except Fault (MeasureResult α) := do
  let investment := Aggregate.ofItems c.circumstances LineResult.ofLine m.lines
  let (maintenance, projection) ← m.upkeep c
  let type := c.circumstances.residenceType
  let reduction ← HeatDemand.reduction (.record m.heatDemand) type c.buildPeriod
  return {
    name := m.name, group := m.group, investment, maintenance, projection
    heatDemand := Number.ofDouble reduction
    nuisance := nuisanceOrZero m.nuisance
    jobs := m.jobs }
where
  /-- A negative zero is a zero. -/
  nuisanceOrZero (nuisance : Option α) : α :=
    match nuisance with
    | some x => if Number.isZero x then 0 else x
    | none => 0

def calculateStored (c : Calculation α) (stored : Datum) : Except Fault (MeasureResult α) := do
  (← Measure.read stored).calculate c

end Measure

end Renovation
