import Renovation.Formula.Token
import Renovation.Number
import Renovation.ResidenceType

set_option autoImplicit false

/-!
# Price lines and jobs

A price line is one billable part of a measure: a formula for the quantity and a price for the unit,
either one price or one for each type of residence. A job is a price line that recurs. Both are
read from stored records; a record that cannot be used still becomes a line, with its defect.
-/

namespace Renovation

abbrev TypePrices (α : Type) := ResidenceType → Option α

inductive LineDefect where
  | notRecord (stored : Datum)
  | notFormula (name : String) (stored : Datum)

namespace LineDefect

def message : LineDefect → String
  | notRecord stored => "Ongeldige prijsregel: " ++ stored.shown
  | notFormula name stored => s!"Ongeldige berekening voor {name}: {stored.shown}"

end LineDefect

def unnamed : String := "Unnamed"

structure PriceLine (α : Type) where
  name : String := unnamed
  /-- Any stored value can be a unit. -/
  unit : Datum := .text "m²"
  formula : List Formula.Token := []
  price : Option α := none
  typePrices : Option (TypePrices α) := none
  defect : Option LineDefect := none

structure Job (α : Type) extends PriceLine α where
  /-- The year of the first occurrence. -/
  cycleStart : α
  /-- The years from one occurrence to the next. -/
  cycle : α

variable {α : Type} [Number α]

def readNumber (d : Datum) : Except Fault (Option α) := do
  return (← d.number).map Number.ofDouble

namespace TypePrices

/-- Prices by type. For the ground level the older spelling of its field stands in. -/
def read (stored : Datum) : Except Fault (Option (TypePrices α)) := do
  if !stored.isRecord then return none
  let ground ← readNumber (stored.field ResidenceType.groundLevel.key)
  let staircase ← readNumber (stored.field ResidenceType.staircase.key)
  let gallery ← readNumber (stored.field ResidenceType.gallery.key)
  let ground ←
    match ground with
    | some price => pure (some price)
    | none => readNumber (stored.field ResidenceType.olderGroundKey)
  return some fun
    | .groundLevel => ground
    | .staircase => staircase
    | .gallery => gallery

end TypePrices

def storedName (stored : Datum) : String :=
  let name := stored.field "name"
  if name.isBlank then unnamed else name.toText

def nameMentions (stored : Datum) : List Mention :=
  let name := stored.field "name"
  if name.isBlank then [] else [⟨name, none⟩]

def formulaDefect (name : String) : Datum → Option LineDefect
  | .null | .list _ => none
  | stored => some (.notFormula name stored)

namespace PriceLine

def mentions (stored : Datum) : List Mention :=
  if stored.isRecord then
    nameMentions stored ++ Formula.mentions (stored.field "calculation")
  else [⟨stored, none⟩]

def read (stored : Datum) : Except Fault (PriceLine α) := do
  Mention.check (mentions stored)
  if !stored.isRecord then return { defect := some (.notRecord stored) }
  let name := storedName stored
  let formula := stored.field "calculation"
  let price ← readNumber (stored.field "price")
  let typePrices ← TypePrices.read (stored.field "pricesPerType")
  return {
    name
    unit := (stored.field "unit").orElse (.text "m²")
    formula := Formula.tokens formula
    price
    typePrices
    defect := formulaDefect name formula }

end PriceLine

namespace Job

def read (stored : Datum) : Except Fault (Job α) := do
  let line ← PriceLine.read stored
  let start ← readNumber (stored.field "cycleStart")
  let cycle ← readNumber (stored.field "cycle")
  return { line with
    cycleStart := orZero start
    cycle := orZero cycle }
where
  /-- A negative zero is a zero. -/
  orZero (x : Option α) : α :=
    match x with
    | some x => if Number.isZero x then 0 else x
    | none => 0

/-- A cycle of zero or below is no cycle. -/
def recurs (job : Job α) : Bool := !(Number.below job.cycle 0 || Number.isZero job.cycle)

end Job

end Renovation
