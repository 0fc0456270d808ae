import Renovation.PriceLine

set_option autoImplicit false

/-!
# Measures

A measure is something done to a dwelling: price lines for the work, jobs for its upkeep, a table of
heat demand and a nuisance. A stored measure that is no record counts as one without any of them.
-/

namespace Renovation

structure Measure (α : Type) where
  name : String := unnamed
  /-- Any stored value can name a group. -/
  group : Datum := .text ""
  lines : List (PriceLine α) := []
  jobs : List (Job α) := []
  heatDemand : Datum.Fields := []
  nuisance : Option α := none

namespace Measure

variable {α : Type} [Number α]

/-- The records of a list; what is no list holds none. -/
def storedItems : Datum → List Datum
  | .list items => items
  | _ => []

/-- A stored measure as a whole if it is no record, else its name. -/
def ownMentions (stored : Datum) : List Mention :=
  if stored.isRecord then nameMentions stored
  else [⟨stored, some (.warning s!"Ignoring malformed measure record: {stored.shown}")⟩]

def listMentions : Datum → List Mention
  | .null | .list _ => []
  | stored => [⟨stored, some (.warning s!"Price lines are not a list: {stored.shown}")⟩]

def mentions (stored : Datum) : List Mention :=
  let items (d : Datum) : List Mention :=
    listMentions d ++ (storedItems d).flatMap PriceLine.mentions
  ownMentions stored ++ items (stored.field "measure_prices") ++ items (stored.field "mjob_prices")

def readItems {β : Type} (readItem : Datum → Except Fault β) (stored : Datum) :
    Except Fault (List β) := do
  Mention.check (listMentions stored)
  (storedItems stored).mapM readItem

def read (stored : Datum) : Except Fault (Measure α) := do
  Mention.check (ownMentions stored)
  if !stored.isRecord then return {}
  let lines ← readItems PriceLine.read (stored.field "measure_prices")
  let jobs ← readItems Job.read (stored.field "mjob_prices")
  let nuisance ← readNumber (stored.field "nuisance")
  return {
    name := storedName stored
    group := (stored.field "group").orElse (.text "")
    lines, jobs
    heatDemand := (stored.field "heat_demand").fields?.getD []
    nuisance }

end Measure

end Renovation
