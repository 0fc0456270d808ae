import Renovation.Number

set_option autoImplicit false

/-!
# Settings

The percentages and rates of a calculation, with fixed amounts that a customer adds. Every field has
a standard value; a stored field takes its place if it is a number and is a fault if it is not.
-/

namespace Renovation

inductive Markup where
  | siteCosts
  | buyOut
  | planning
  | aftercare
  | insurance
  | bankGuarantee
  | overhead
  | risk
  | profit
  | preparation
  | tenantGuidance
deriving DecidableEq

namespace Markup

def all : List Markup :=
  [siteCosts, buyOut, planning, aftercare, insurance, bankGuarantee, overhead, risk, profit,
    preparation, tenantGuidance]

def key : Markup → String
  | siteCosts => "abkMaterieel"
  | buyOut => "afkoop"
  | planning => "kostenPlanuitwerking"
  | aftercare => "nazorgService"
  | insurance => "carPiDicVerzekering"
  | bankGuarantee => "bankgarantie"
  | overhead => "algemeneKosten"
  | risk => "risico"
  | profit => "winst"
  | preparation => "planvoorbereiding"
  | tenantGuidance => "huurdersbegeleiding"

def standard : Markup → Float
  | siteCosts => 5.0
  | buyOut => 2.0
  | planning => 3.0
  | aftercare => 1.5
  | insurance => 1.0
  | bankGuarantee => 0.5
  | overhead => 8.0
  | risk => 2.0
  | profit => 5.0
  | preparation => 3.0
  | tenantGuidance => 2.0

end Markup

inductive Rate where
  /-- Euros for an hour of work. -/
  | labour
  | vat
  | inflation
  | cornerHouse
  | markup (m : Markup)
deriving DecidableEq

namespace Rate

def all : List Rate := [labour, vat, inflation, cornerHouse] ++ Markup.all.map markup

def key : Rate → String
  | labour => "hourlyLaborCost"
  | vat => "vatPercentage"
  | inflation => "inflationPercentage"
  | cornerHouse => "cornerHouseCorrection"
  | markup m => m.key

def standard : Rate → Float
  | labour => 51.0
  | vat => 21.0
  | inflation => 1.0
  | cornerHouse => -10.0
  | markup m => m.standard

end Rate

structure Settings (α : Type) where
  rate : Rate → α
  customAmounts : List α

namespace Settings

variable {α : Type} [Number α]

def standard : Settings α := ⟨fun r => Number.ofDouble r.standard, []⟩

def markup (s : Settings α) (m : Markup) : α := s.rate (.markup m)

def markups (s : Settings α) : List (String × α) := Markup.all.map fun m => (m.key, s.markup m)

def storedRate (fields : Datum.Fields) (r : Rate) : Except Fault (Option Float) :=
  match fields.lookup r.key with
  | none => .ok none
  | some stored => do
    match ← stored.number with
    | some x => return some x
    | none => .error (.settingNotNumeric r.key stored)

def storedRates (fields : Datum.Fields) : Except Fault (List (Rate × Option Float)) :=
  Rate.all.mapM fun r => do return (r, ← storedRate fields r)

/-- The values of custom fields that are records, or else of the two older custom fields. -/
def customValues (fields : Datum.Fields) : Except Fault (List Datum) := do
  let stored : Datum := .record fields
  let custom := stored.field "customFields"
  if custom.isBlank then return [stored.field "customValue1", stored.field "customValue2"]
  else return ((← custom.items).filter (·.isRecord)).map (·.field "value")

def customAmountsOf (values : List Datum) : Except Fault (List Float) := do
  return (← values.mapM (·.number)).filterMap fun amount => amount.filter (· != 0.0)

def ofFields (fields : Datum.Fields) : Except Fault (Settings α) := do
  let rates ← storedRates fields
  let amounts ← customAmountsOf (← customValues fields)
  return {
    rate := fun r => Number.ofDouble (((rates.lookup r).getD none).getD r.standard)
    customAmounts := amounts.map Number.ofDouble }

def read (stored : Datum) : Except Fault (Settings α) := do
  ofFields (← stored.toFields)

end Settings

end Renovation
