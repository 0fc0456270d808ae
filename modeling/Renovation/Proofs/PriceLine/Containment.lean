import Renovation.PriceLine.Result
import Renovation.Proofs.Outcome

set_option autoImplicit false

/-!
# Lines with and without a price

Pricing a line has many ways to go wrong: the record cannot be read, its formula is no list, a fault
turns up while names are looked up or the residence type is classified, the formula has no value.
All of them end in one shape of result. The main statement is that a stored record of any kind, in
circumstances of any kind, comes either to a complete line or to a failed one, that it is complete
exactly if each part of the calculation succeeds, and that either keeps the line's name and unit.
-/

namespace Renovation

open Outcome

variable {α : Type}

namespace LineResult

/-- A line with a price and nothing to report. -/
structure Complete [Number α] (r : LineResult α) : Prop where
  isValid : r.isValid = true
  error : r.error = none
  warnings : r.warnings = []
  total : r.total = r.quantity * r.unitPrice

/-- A line without a price: no amount, and one message. -/
structure Failed [Number α] (r : LineResult α) : Prop where
  isValid : r.isValid = false
  quantity : r.quantity = 0
  total : r.total = 0
  message : ∃ message, message ≠ "" ∧ r.error = some message ∧ r.warnings = [message]

theorem Complete.not_failed [Number α] {r : LineResult α} (h : r.Complete) : ¬ r.Failed := by
  intro hf
  have hv := h.isValid
  rw [hf.isValid] at hv
  cases hv

end LineResult

theorem Formula.EvaluationError.message_ne_empty (error : EvaluationError) :
    error.message ≠ "" := by
  intro h
  cases error with
  | missing name => exact absurd (String.append_eq_empty_iff.mp h).2 (by decide)
  | notNumeric name value => exact absurd (String.append_eq_empty_iff.mp h).2 (by decide)
  | zeroDivisor name => exact absurd (String.append_eq_empty_iff.mp h).1 (by decide)

theorem LineFailure.message_ne_empty (failure : LineFailure α) : failure.message ≠ "" := by
  intro h
  cases failure with
  | defect d => exact absurd (String.append_eq_empty_iff.mp h).1 (by decide)
  | fault f => exact absurd (String.append_eq_empty_iff.mp h).1 (by decide)
  | evaluation unitPrice steps error => exact error.message_ne_empty h

variable [Number α]

theorem PriceLine.evaluate_eq_ok_iff {line : PriceLine α} {c : Circumstances} {p : Priced α} :
    line.evaluate c = .ok p ↔ line.defect = none ∧
      Formula.evaluate c.aliases c.context line.formula = .ok ⟨p.steps, .ok p.quantity⟩ ∧
      line.unitPrice c.residenceType c.splitPrices = .ok p.unitPrice := by
  obtain ⟨quantity, price, steps⟩ := p
  unfold evaluate
  cases line.defect with
  | some d => simp
  | none =>
    cases (Formula.evaluate c.aliases c.context line.formula :
      Except Fault (Formula.Evaluation α)) with
    | error fault => simp
    | ok e =>
      obtain ⟨found, outcome⟩ := e
      cases line.unitPrice c.residenceType c.splitPrices with
      | error fault => simp
      | ok price' =>
        cases outcome with
        | error error => simp
        | ok x =>
          constructor
          · intro h
            cases h
            exact ⟨rfl, rfl, rfl⟩
          · rintro ⟨-, he, hp⟩
            cases he
            cases hp
            rfl

namespace LineResult

theorem failed_invalid (name : String) (unit : Datum) (failure : LineFailure α) :
    (invalid name unit failure).Failed :=
  ⟨rfl, rfl, rfl, failure.message, failure.message_ne_empty, rfl, rfl⟩

variable (c : Circumstances) (line : PriceLine α)

@[simp] theorem ofLine_name : (ofLine c line).name = line.name := by
  unfold ofLine
  cases line.evaluate c <;> rfl

@[simp] theorem ofLine_unit : (ofLine c line).unit = line.unit := by
  unfold ofLine
  cases line.evaluate c <;> rfl

@[simp] theorem ofJob_name (job : Job α) : (ofJob c job).name = job.name := ofLine_name c _

theorem ofLine_complete_or_failed :
    (∃ p, line.evaluate c = .ok p ∧ (ofLine c line).Complete ∧
      (ofLine c line).quantity = p.quantity ∧ (ofLine c line).unitPrice = p.unitPrice) ∨
    (∃ failure, line.evaluate c = .error failure) ∧ (ofLine c line).Failed := by
  unfold ofLine
  cases line.evaluate c with
  | error failure => exact .inr ⟨⟨failure, rfl⟩, failed_invalid _ _ _⟩
  | ok p => exact .inl ⟨p, rfl, ⟨rfl, rfl, rfl, rfl⟩, rfl, rfl⟩

theorem ofLine_complete_iff : (ofLine c line).Complete ↔
    ∃ steps, line.evaluate c = .ok ⟨(ofLine c line).quantity, (ofLine c line).unitPrice, steps⟩ := by
  constructor
  · intro hc
    rcases ofLine_complete_or_failed c line with ⟨p, hp, _, hq, hu⟩ | ⟨_, hf⟩
    · rw [hq, hu]
      exact ⟨p.steps, hp⟩
    · exact absurd hf hc.not_failed
  · rintro ⟨steps, hp⟩
    rcases ofLine_complete_or_failed c line with ⟨_, _, hc, _⟩ | ⟨⟨_, he⟩, _⟩
    · exact hc
    · cases hp.symm.trans he

theorem ofStored_of_ok {c : Circumstances} {stored : Datum} {line : PriceLine α}
    (h : PriceLine.read stored = .ok line) : ofStored c stored = ofLine c line := by
  unfold ofStored
  rw [h]

theorem failed_of_error {c : Circumstances} {stored : Datum} {fault : Fault}
    (h : PriceLine.read (α := α) stored = .error fault) : (ofStored (α := α) c stored).Failed := by
  unfold ofStored
  rw [h]
  exact failed_invalid _ _ _

/-- A stored record comes to a complete line or to a failed one and never to both. It is complete
exactly if it reads as a line without defect whose formula has a value and whose unit has a price,
and then these are its quantity and unit price. Whatever reads as a line keeps its name and unit. -/
theorem ofStored_complete_or_failed (stored : Datum) :
    let r : LineResult α := ofStored c stored
    (r.Complete ∨ r.Failed) ∧ ¬ (r.Complete ∧ r.Failed) ∧
    (∀ line : PriceLine α, PriceLine.read stored = .ok line →
      r.name = line.name ∧ r.unit = line.unit) ∧
    (r.Complete ↔ ∃ (line : PriceLine α) (steps : List (Formula.Step α)),
      PriceLine.read stored = .ok line ∧ line.defect = none ∧
      Formula.evaluate c.aliases c.context line.formula = .ok ⟨steps, .ok r.quantity⟩ ∧
      line.unitPrice c.residenceType c.splitPrices = .ok r.unitPrice) := by
  intro r
  have exclusive : ¬ (r.Complete ∧ r.Failed) := fun h => h.1.not_failed h.2
  cases h : (PriceLine.read stored : Except Fault (PriceLine α)) with
  | error fault =>
    have hf : r.Failed := failed_of_error h
    refine ⟨.inr hf, exclusive, nofun, fun hc => absurd hf hc.not_failed, ?_⟩
    rintro ⟨_, _, hl, _⟩
    cases hl
  | ok line =>
    have hr : r = ofLine c line := ofStored_of_ok h
    rw [hr] at exclusive ⊢
    refine ⟨?_, exclusive, ?_, ?_⟩
    · rcases ofLine_complete_or_failed c line with ⟨_, _, hc, _⟩ | ⟨_, hf⟩
      · exact .inl hc
      · exact .inr hf
    · rintro _ ⟨⟩
      exact ⟨ofLine_name c line, ofLine_unit c line⟩
    · rw [ofLine_complete_iff]
      simp only [PriceLine.evaluate_eq_ok_iff]
      constructor
      · rintro ⟨steps, hp⟩
        exact ⟨line, steps, rfl, hp⟩
      · rintro ⟨_, steps, ⟨⟩, hp⟩
        exact ⟨steps, hp⟩

/-- Nothing can be looked up in a list, but the line keeps its name and unit. -/
example :
    let r : LineResult Float := ofStored { context := .list [] } (.record [("name", .text "Dak"),
      ("unit", .text "st"), ("calculation", .list [.record [("type", .text "variable"),
        ("value", .text "dakOppervlak")]])])
    (r.name, r.isValid, r.error) = ("Dak", false,
      some "Fout in berekening: 'list' object has no attribute 'get'") := rfl

end LineResult

end Renovation
