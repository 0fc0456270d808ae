import Renovation.Settings

set_option autoImplicit false

/-!
# Budgets

From direct costs to the amount with value added tax. Every markup is a percentage of the direct
costs with the custom amounts, and the subtotals grow in the order of a quotation.
-/

namespace Renovation

structure Budget (α : Type) where
  direct : α
  custom : α
  base : α
  siteCosts : α
  afterSiteCosts : α
  buyOut : α
  afterBuyOut : α
  planning : α
  afterPlanning : α
  aftercare : α
  insurance : α
  bankGuarantee : α
  overhead : α
  risk : α
  profit : α
  construction : α
  preparation : α
  tenantGuidance : α
  afterAdditional : α
  withoutVat : α
  vat : α
  withVat : α
  perUnitWithVat : α
  perUnitWithoutVat : α

namespace Budget

variable {α : Type} [Number α]

/-- A count of dwellings as it is stored; nothing stored and negative counts are none. -/
def storedUnits (stored : Datum) : Except Fault Nat :=
  if stored.isBlank then .ok 0 else do return (← stored.toWhole).toNat

def perUnit (amount : α) (units : Nat) : Except Fault α :=
  if units == 0 then .ok 0 else do return amount / (← Number.ofWhole units)

def calculate (total : α) (settings : Settings α) (units : Nat) : Except Fault (Budget α) := do
  let direct := Number.greater 0 total
  let custom := if Number.below 0 direct then Number.sum settings.customAmounts else 0
  let base := direct + custom
  let share (m : Markup) : α := base * Number.fraction (settings.markup m)
  let afterSiteCosts := base + share .siteCosts
  let afterBuyOut := afterSiteCosts + share .buyOut
  let afterPlanning := afterBuyOut + share .planning
  let construction := afterPlanning + share .aftercare + share .insurance + share .bankGuarantee
    + share .overhead + share .risk + share .profit
  let afterAdditional := construction + share .preparation + share .tenantGuidance
  let vat := afterAdditional * Number.fraction (settings.rate .vat)
  let withVat := afterAdditional + vat
  return {
    direct, custom, base
    siteCosts := share .siteCosts, afterSiteCosts
    buyOut := share .buyOut, afterBuyOut
    planning := share .planning, afterPlanning
    aftercare := share .aftercare
    insurance := share .insurance
    bankGuarantee := share .bankGuarantee
    overhead := share .overhead
    risk := share .risk
    profit := share .profit
    construction
    preparation := share .preparation
    tenantGuidance := share .tenantGuidance
    afterAdditional
    withoutVat := afterAdditional
    vat, withVat
    perUnitWithVat := ← perUnit withVat units
    perUnitWithoutVat := ← perUnit afterAdditional units }

end Budget

end Renovation
