import Renovation.PriceLine

set_option autoImplicit false

/-!
# Recurrence

A job is due in its start year and then once in each cycle, in every year before the horizon. A
start before year zero counts as year zero; a job whose cycle is zero or below is never due.
-/

namespace Renovation.Maintenance

structure Horizon where
  years : Int

namespace Horizon

def standard : Horizon := ⟨40⟩

/-- A number is zero or below; the double that is no number is not. -/
def tooSmall : Option Datum.Extent → Bool
  | some extent => !(Datum.Extent.finite 0).below extent
  | none => false

def ofStored (stored : Datum) : Except Fault Horizon :=
  match stored.extent? with
  | none => .error .wrongKind
  | some extent =>
    if tooSmall extent then .error .horizonNotPositive else do return ⟨← stored.toWhole⟩

end Horizon

variable {α : Type} [Number α]

/-- The next year is still below the horizon and is not above the last one. -/
def lost (horizon : Horizon) (year next : α) : Bool :=
  Number.belowWhole next horizon.years && !Number.below year next

/-- The years from `year` on, one cycle apart, as long as they are below the horizon. `limit` bounds
their number; a cycle that is lost in rounding is a fault. -/
def yearsFrom (horizon : Horizon) (cycle : α) : Nat → α → Except Fault (List α)
  | 0, year => if Number.belowWhole year horizon.years then .error .unending else .ok []
  | limit + 1, year =>
    if Number.belowWhole year horizon.years then
      let next := year + cycle
      if lost horizon year next then .error .unending
      else do return year :: (← yearsFrom horizon cycle limit next)
    else .ok []

def firstYear (job : Job α) : α := Number.greater job.cycleStart 0

def dueYears (horizon : Horizon) (job : Job α) : Except Fault (List α) :=
  if !job.recurs || !Number.belowWhole job.cycleStart horizon.years then .ok []
  else
    let first := firstYear job
    yearsFrom horizon job.cycle (Number.stepsBelow first job.cycle horizon.years) first

end Renovation.Maintenance
