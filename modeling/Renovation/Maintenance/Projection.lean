import Renovation.Cost
import Renovation.Maintenance.Recurrence
import Renovation.PriceLine.Result

set_option autoImplicit false

/-!
# Projection

What maintenance costs over the horizon. Each occurrence of a job costs its price times the growth
factor to the power of its year; the yearly cost is the total spread evenly over the horizon. The
lines of a measure are matched with its jobs by place, and their names have to agree.
-/

namespace Renovation.Maintenance

structure Occurrence (α : Type) where
  year : α
  cost : Cost α

structure Projection (α : Type) where
  total : Cost α
  perYear : Cost α
  occurrences : List (Occurrence α)
  warnings : List String

variable {α : Type}

def Projection.empty [Number α] : Projection α := ⟨0, 0, [], []⟩

def growthFactor [Number α] (inflation : α) : α := Number.one + Number.fraction inflation

/-- A total of doubles over the years of the horizon. -/
def spread [Number α] (horizon : Horizon) (total : Cost α) : Except Fault (Cost α) :=
  if horizon.years == 0 then .error .divisionByZero
  else do return total.divide (← Number.ofWhole horizon.years)

/-- The total of a line that is never due is a whole zero, which needs no double to be spread. -/
def spreadNothing [Number α] (horizon : Horizon) : Except Fault (Cost α) :=
  if horizon.years == 0 then .error .wholeDivisionByZero else .ok 0

variable [Growth α]

def occurrences (price growth : α) (years : List α) : Except Fault (List (Occurrence α)) :=
  years.mapM fun year => do return ⟨year, (← Growth.power growth year).scale price⟩

def project (horizon : Horizon) (inflation : α) (line : LineResult α) (job : Job α) :
    Except Fault (Projection α) := do
  if !line.isValid then return .empty
  let years ← dueYears horizon job
  let found ← occurrences line.total (growthFactor inflation) years
  let total := Cost.sum (found.map (·.cost))
  let perYear ← if found.isEmpty then spreadNothing horizon else spread horizon total
  return { total, perYear, occurrences := found, warnings := [] }

/-- The job in a line's place, if its name is the line's. -/
def jobFor? (line : LineResult α) (job? : Option (Job α)) : Option (Job α) :=
  job?.filter fun job => job.name == line.name

def missingCycle (line : LineResult α) : String := s!"Onderhoudscyclus ontbreekt voor {line.name}"

def combine (horizon : Horizon) (inflation : α) (combined : Projection α) :
    List (LineResult α) → List (Option (Job α)) → Except Fault (Projection α)
  | [], _ => .ok combined
  | line :: lines, jobs =>
    match jobFor? line jobs.head?.join with
    | none =>
      combine horizon inflation
        { combined with warnings := combined.warnings ++ [missingCycle line] } lines jobs.tail
    | some job => do
      let one ← project horizon inflation line job
      combine horizon inflation
        { combined with
          total := combined.total + one.total
          occurrences := combined.occurrences ++ one.occurrences } lines jobs.tail

/-- All lines of a measure over the horizon. A place may have no job; a line without its job is
skipped with a warning. -/
def projectLines (horizon : Horizon) (inflation : α) (lines : List (LineResult α))
    (jobs : List (Option (Job α))) : Except Fault (Projection α) := do
  let combined ← combine horizon inflation .empty lines jobs
  return { combined with perYear := ← spread horizon combined.total }

def usesInflation (lines : List (LineResult α)) (jobs : List (Option (Job α))) : Bool :=
  (lines.zip jobs).any fun pair => pair.1.isValid && (jobFor? pair.1 pair.2).isSome

/-- An inflation as it is stored, zero if it does not matter: then it is not even read. -/
def storedInflation (needed : Bool) (stored : Datum) : Except Fault α :=
  if needed then do return Number.ofDouble (← stored.toDouble) else .ok 0

def yearlyCost (line : LineResult α) (job : Job α) : α :=
  if job.recurs then line.total / job.cycle else 0

end Renovation.Maintenance
