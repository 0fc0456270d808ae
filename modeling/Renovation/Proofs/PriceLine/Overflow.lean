import Renovation.Proofs.Formula.Overflow
import Renovation.Proofs.PriceLine.Exact

set_option autoImplicit false

/-!
# Valid lines with amounts that leave the range

A price is read from its record and is finite, as are the operands of a formula. What is made of them
is not looked at again: the quantity of a valid line is finite exactly if no operation of its formula
overflows, and the total exactly if the product with the price does not overflow either.
-/

namespace Renovation

open Decimal Formula Outcome

/-! ## Prices -/

theorem isFinite_of_readNumber {d : Datum} {x : Float} (h : readNumber d = .ok (some x)) :
    Datum.isFinite x = true := by
  obtain ⟨number, hnumber, hx⟩ := bind_eq_ok.mp h
  obtain ⟨y, rfl, hy⟩ := Option.map_eq_some_iff.mp (Except.ok.inj hx)
  exact hy ▸ isFinite_of_number hnumber

structure PriceLine.FinitePrices (line : PriceLine Float) : Prop where
  price : ∀ x, line.price = some x → Datum.isFinite x = true
  typePrices : ∀ prices, line.typePrices = some prices →
    ∀ type x, prices type = some x → Datum.isFinite x = true

theorem TypePrices.isFinite_of_read {stored : Datum} {prices : TypePrices Float}
    (h : TypePrices.read stored = .ok (some prices)) (type : ResidenceType) {x : Float}
    (hx : prices type = some x) : Datum.isFinite x = true := by
  cases hr : stored.isRecord with
  | false =>
    unfold TypePrices.read at h
    rw [hr] at h
    cases h
  | true =>
    rw [TypePrices.read_of_isRecord hr] at h
    simp only [bind_eq_ok] at h
    obtain ⟨newer, hnewer, staircase, hstaircase, gallery, hgallery, ground, hground, h⟩ := h
    obtain rfl := Option.some.inj (Except.ok.inj h)
    cases type with
    | staircase =>
      obtain rfl : staircase = some x := hx
      exact isFinite_of_readNumber hstaircase
    | gallery =>
      obtain rfl : gallery = some x := hx
      exact isFinite_of_readNumber hgallery
    | groundLevel =>
      obtain rfl : ground = some x := hx
      cases newer with
      | none => exact isFinite_of_readNumber hground
      | some price =>
        obtain rfl := Option.some.inj (Except.ok.inj hground)
        exact isFinite_of_readNumber hnewer

namespace PriceLine

theorem finitePrices_of_read {stored : Datum} {line : PriceLine Float}
    (h : PriceLine.read stored = .ok line) : line.FinitePrices := by
  rw [read_of_told (told_of_read h)] at h
  cases hr : stored.isRecord with
  | false =>
    rw [hr] at h
    obtain rfl := Except.ok.inj h
    exact ⟨nofun, nofun⟩
  | true =>
    rw [hr, if_pos rfl] at h
    simp only [bind_eq_ok] at h
    obtain ⟨price, hprice, types, htypes, h⟩ := h
    obtain rfl := Except.ok.inj h
    constructor
    · intro x hx
      obtain rfl : price = some x := hx
      exact isFinite_of_readNumber hprice
    · intro prices hprices type x hx
      obtain rfl : types = some prices := hprices
      exact TypePrices.isFinite_of_read htypes type hx

theorem FinitePrices.unitPrice {line : PriceLine Float} (h : line.FinitePrices) {type : Datum}
    {split : Bool} {x : Float} (hx : line.unitPrice type split = .ok x) :
    Datum.isFinite x = true := by
  have hflat : Datum.isFinite (line.price.getD 0) = true := by
    cases hp : line.price with
    | none => exact holds_zero.isFinite
    | some price => exact h.price price hp
  unfold PriceLine.unitPrice at hx
  split at hx
  · rename_i prices hprices
    obtain ⟨type', -, hx⟩ := bind_eq_ok.mp hx
    obtain rfl := Except.ok.inj hx
    cases hp : prices type' with
    | none => exact hflat
    | some price => exact h.typePrices prices hprices type' price hp
  · obtain rfl := Except.ok.inj hx
    exact hflat

end PriceLine

/-! ## Amounts -/

namespace LineResult

def multiplication (line : LineResult Float) : Operation :=
  ⟨line.quantity, .times, line.unitPrice⟩

theorem divides_multiplication (line : LineResult Float) : line.multiplication.Divides := by
  intro h
  cases h

variable {c : Circumstances} {stored : Datum}

theorem isFinite_unitPrice (h : (ofStored c stored : LineResult Float).isValid = true) :
    Datum.isFinite (ofStored c stored : LineResult Float).unitPrice = true ∧
      (ofStored c stored : LineResult Float).total =
        (ofStored c stored : LineResult Float).multiplication.result := by
  obtain ⟨line, p, hread, hp⟩ := exists_priced h
  obtain ⟨-, -, hprice⟩ := PriceLine.evaluate_eq_ok_iff.mp hp
  rw [ofStored_of_ok hread, ofLine, hp]
  exact ⟨(PriceLine.finitePrices_of_read hread).unitPrice hprice, rfl⟩

/-- A line that is valid has a finite price, and the operands in its steps are finite. Its quantity
is finite exactly if no operation of the formula overflows, and its total exactly if in addition the
quantity times the price does not. -/
theorem valid_line_finite_iff {line : LineResult Float} (hline : ofStored c stored = line)
    (hvalid : line.isValid = true) :
    Datum.isFinite line.unitPrice = true ∧
      (∀ step ∈ line.steps, Datum.isFinite step.value = true) ∧
      ∃ q : Progress Float,
        Reaches c.aliases c.context .start (tokens (stored.field "calculation")) q ∧
        q.steps = line.steps ∧ valueOf q.items = .ok line.quantity ∧
        (Datum.isFinite line.quantity = true ↔
          ∀ o ∈ (chain q.items).operations, ¬ o.Overflows) ∧
        (Datum.isFinite line.total = true ↔
          Datum.isFinite line.quantity = true ∧ ¬ line.multiplication.Overflows) := by
  subst hline
  obtain ⟨hprice, htotal⟩ := isFinite_unitPrice hvalid
  obtain ⟨q, x, hq, hvalue, he⟩ | ⟨before, name, after, q, error, -, -, -, he⟩ :=
    evaluateFrom_eq_ok_iff.mp (evaluate_of_valid hvalid)
  · obtain ⟨hitems, hsteps⟩ := hq.finite
    obtain ⟨hqsteps, hx⟩ := Evaluation.mk.inj he
    obtain rfl := Except.ok.inj hx
    rw [← hqsteps] at hsteps
    refine ⟨hprice, hsteps, q, hq, hqsteps.symm, hvalue, isFinite_valueOf_iff hitems hvalue, ?_⟩
    rw [htotal, Operation.isFinite_result_iff (divides_multiplication _)]
    exact and_congr_right fun _ => and_iff_right hprice
  · cases (Evaluation.mk.inj he).2

theorem overflow_in_front_of_zero :
    let stored := Datum.record [("name", .text "Dak"), ("calculation", Formula.stored
      [.operand "a", .operator .times, .operand "b", .operator .times, .operand "n"]),
      ("price", .real 5.0)]
    let c : Circumstances :=
      { context := .record [("a", .real 1e200), ("b", .real 1e200), ("n", .real 0.0)] }
    let line : LineResult Float := .ofStored c stored
    line.isValid = true ∧ Datum.isFinite line.quantity = false ∧
      ∃ q : Progress Float,
        Reaches c.aliases c.context .start (tokens (stored.field "calculation")) q ∧
        ∃ o ∈ (chain q.items).operations, o.Overflows := by
  intro stored c line
  have hvalid : line.isValid = true := by decide +kernel
  have hquantity : Datum.isFinite line.quantity = false := by decide +kernel
  obtain ⟨-, -, q, hq, -, -, hiff, -⟩ := valid_line_finite_iff rfl hvalid
  refine ⟨hvalid, hquantity, q, hq, ?_⟩
  by_contra hnone
  have hfinite := hiff.mpr fun o ho hover => hnone ⟨o, ho, hover⟩
  rw [hquantity] at hfinite
  cases hfinite

/-- The square of `1e200` is beyond the doubles, and the line is valid. -/
theorem valid_line_overflows :
    let stored := Datum.record [("name", .text "Dak"), ("calculation", Formula.stored
      [.operand "a", .operator .times, .operand "b"]), ("price", .real 5.0)]
    let c : Circumstances := { context := .record [("a", .real 1e200), ("b", .real 1e200)] }
    let line : LineResult Float := .ofStored c stored
    line.isValid = true ∧ Datum.isFinite line.quantity = false ∧
      Datum.isFinite line.total = false := by
  decide +kernel

end LineResult

end Renovation
