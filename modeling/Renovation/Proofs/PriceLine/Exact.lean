import Renovation.Proofs.Formula.Exact
import Renovation.Proofs.Measure.Reading
import Renovation.Proofs.PriceLine.Containment

set_option autoImplicit false

/-!
# One price line over two types of numbers

What a line keeps of its record is the same over any type of numbers, but for the prices. A line
that is valid over one type is valid over another one with the same zeros, and its steps are the
same.
-/

namespace Renovation

open Formula Outcome

variable {α β : Type} [Number α] [Number β]

theorem TypePrices.isSome_of_read {stored : Datum} {prices : Option (TypePrices α)}
    (h : TypePrices.read stored = .ok prices) : prices.isSome = stored.isRecord := by
  cases hr : stored.isRecord with
  | false =>
    unfold TypePrices.read at h
    rw [hr] at h
    obtain rfl := Except.ok.inj h
    rfl
  | true =>
    rw [TypePrices.read_of_isRecord hr] at h
    simp only [bind_eq_ok] at h
    obtain ⟨_, _, _, _, _, _, _, _, h⟩ := h
    obtain rfl := Except.ok.inj h
    rfl

namespace PriceLine

structure Kept (stored : Datum) (line : PriceLine α) : Prop where
  formula : line.formula = tokens (stored.field "calculation")
  defect : line.defect = if stored.isRecord then
    formulaDefect (storedName stored) (stored.field "calculation") else some (.notRecord stored)
  typePrices : line.typePrices.isSome = (stored.field "pricesPerType").isRecord

theorem kept_of_read {stored : Datum} {line : PriceLine α} (h : PriceLine.read stored = .ok line) :
    Kept stored line := by
  rw [read_of_told (told_of_read h)] at h
  cases hr : stored.isRecord with
  | false =>
    rw [hr] at h
    obtain rfl := Except.ok.inj h
    refine ⟨?_, by rw [hr]; rfl, ?_⟩ <;> rw [Datum.field_of_not_isRecord hr] <;> rfl
  | true =>
    rw [hr, if_pos rfl] at h
    simp only [bind_eq_ok] at h
    obtain ⟨_, _, _, htypes, h⟩ := h
    obtain rfl := Except.ok.inj h
    exact ⟨rfl, by rw [hr]; rfl, TypePrices.isSome_of_read htypes⟩

theorem exists_read {stored : Datum} {line : PriceLine α} (h : PriceLine.read stored = .ok line) :
    ∃ line' : PriceLine β, PriceLine.read stored = .ok line' :=
  read_returns_iff.mpr (read_returns_iff.mp ⟨line, h⟩)

theorem exists_unitPrice {line : PriceLine α} {line' : PriceLine β}
    (h : line'.typePrices.isSome = line.typePrices.isSome) {type : Datum} {split : Bool} {x : α}
    (hx : line.unitPrice type split = .ok x) : ∃ y, line'.unitPrice type split = .ok y := by
  unfold unitPrice at hx ⊢
  cases split with
  | false => exact ⟨_, rfl⟩
  | true =>
    cases ht' : line'.typePrices with
    | none => exact ⟨_, rfl⟩
    | some prices' =>
      cases ht : line.typePrices with
      | none =>
        rw [ht, ht'] at h
        cases h
      | some prices =>
        rw [ht] at hx
        obtain ⟨type', hclass, -⟩ := bind_eq_ok.mp hx
        simp only [hclass]
        exact ⟨_, rfl⟩

theorem evaluate_alike (same : SameZeros α β) {stored : Datum} {line : PriceLine α}
    {line' : PriceLine β} (kept : Kept stored line) (kept' : Kept stored line') {c : Circumstances}
    {p : Priced α} (h : line.evaluate c = .ok p) :
    ∃ p' : Priced β, line'.evaluate c = .ok p' ∧ List.Forall₂ Alike p.steps p'.steps := by
  obtain ⟨hdefect, hvalue, hprice⟩ := evaluate_eq_ok_iff.mp h
  obtain ⟨steps', y, hvalue', alike⟩ := Formula.evaluate_alike same hvalue
  obtain ⟨price', hprice'⟩ := exists_unitPrice (kept'.typePrices.trans kept.typePrices.symm) hprice
  refine ⟨⟨y, price', steps'⟩, evaluate_eq_ok_iff.mpr ⟨?_, ?_, hprice'⟩, alike⟩
  · rw [kept'.defect, ← kept.defect, hdefect]
  · rw [kept'.formula, ← kept.formula]
    exact hvalue'

end PriceLine

namespace LineResult

variable {c : Circumstances} {stored : Datum}

theorem exists_priced (h : (ofStored c stored : LineResult α).isValid = true) :
    ∃ (line : PriceLine α) (p : PriceLine.Priced α),
      PriceLine.read stored = .ok line ∧ line.evaluate c = .ok p := by
  cases hread : PriceLine.read (α := α) stored with
  | error fault =>
    rw [(failed_of_error hread).isValid] at h
    cases h
  | ok line =>
    rw [ofStored_of_ok hread] at h
    rcases ofLine_complete_or_failed c line with ⟨p, hp, -⟩ | ⟨-, hfailed⟩
    · exact ⟨line, p, rfl, hp⟩
    · rw [hfailed.isValid] at h
      cases h

theorem ofStored_of_priced {line : PriceLine α} {p : PriceLine.Priced α}
    (hread : PriceLine.read stored = .ok line) (h : line.evaluate c = .ok p) :
    (ofStored c stored : LineResult α).isValid = true ∧
      (ofStored c stored).steps = p.steps ∧ (ofStored c stored).quantity = p.quantity := by
  rw [ofStored_of_ok hread, ofLine, h]
  exact ⟨rfl, rfl, rfl⟩

theorem evaluate_of_valid (h : (ofStored c stored : LineResult α).isValid = true) :
    evaluate c.aliases c.context (tokens (stored.field "calculation")) =
      .ok ⟨(ofStored c stored : LineResult α).steps, .ok (ofStored c stored).quantity⟩ := by
  obtain ⟨line, p, hread, hp⟩ := exists_priced h
  obtain ⟨-, hsteps, hquantity⟩ := ofStored_of_priced hread hp
  obtain ⟨-, hvalue, -⟩ := PriceLine.evaluate_eq_ok_iff.mp hp
  rw [hsteps, hquantity, ← (PriceLine.kept_of_read hread).formula]
  exact hvalue

/-- A line that is valid over one type of numbers is valid over the other, with the same steps. -/
theorem ofStored_alike (same : SameZeros α β)
    (h : (ofStored c stored : LineResult α).isValid = true) :
    (ofStored c stored : LineResult β).isValid = true ∧
      List.Forall₂ Alike (ofStored c stored : LineResult α).steps
        (ofStored c stored : LineResult β).steps := by
  obtain ⟨line, p, hread, hp⟩ := exists_priced h
  obtain ⟨line', hread'⟩ := PriceLine.exists_read (β := β) hread
  obtain ⟨p', hp', alike⟩ := PriceLine.evaluate_alike same (PriceLine.kept_of_read hread)
    (PriceLine.kept_of_read hread') hp
  obtain ⟨-, hsteps, -⟩ := ofStored_of_priced hread hp
  obtain ⟨hvalid, hsteps', -⟩ := ofStored_of_priced hread' hp'
  rw [hsteps, hsteps']
  exact ⟨hvalid, alike⟩

end LineResult

end Renovation
