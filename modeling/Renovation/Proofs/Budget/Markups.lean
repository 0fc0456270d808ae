import Mathlib.Algebra.BigOperators.Ring.List
import Mathlib.Tactic.Ring
import Renovation.Budget
import Renovation.Proofs.Exact
import Renovation.Proofs.Outcome

set_option autoImplicit false

/-!
# Markups in a budget

Every markup is a percentage of the same base, the direct costs with the custom amounts, so the
subtotals do not compound. Over exact numbers each subtotal is the base raised by the percentages
up to its last markup, and the amount without tax is the base raised by all of them, each counted
once. A budget without direct costs is zero throughout.
-/

namespace Renovation

open Outcome

/-- A base with the sum of some percentages of it. -/
def raised (base : ℚ) (percentages : List ℚ) : ℚ := base * (1 + percentages.sum / 100)

theorem fraction_eq (percentage : ℚ) : Number.fraction percentage = percentage / 100 := rfl

theorem foldl_share (base : ℚ) (percentages : List ℚ) (subtotal : ℚ) :
    percentages.foldl (fun subtotal p => subtotal + base * Number.fraction p) subtotal =
      subtotal + base * (percentages.sum / 100) := by
  induction percentages generalizing subtotal with
  | nil => simp
  | cons p rest ih =>
    rw [List.foldl_cons, ih, fraction_eq, List.sum_cons]
    ring

theorem foldl_share_base (base : ℚ) (percentages : List ℚ) :
    percentages.foldl (fun subtotal p => subtotal + base * Number.fraction p) base =
      raised base percentages := by
  rw [foldl_share, raised, mul_add, mul_one]

namespace Settings

def percentagesThrough (s : Settings ℚ) (last : Markup) : List ℚ :=
  (s.markups.map (·.2)).take (Markup.all.idxOf last + 1)

end Settings

theorem Markup.count_all (m : Markup) : Markup.all.count m = 1 := by
  cases m <;> rfl

namespace Budget

/-! ## Amounts by markup -/

section

variable {α : Type}

def amountOf (b : Budget α) : Markup → α
  | .siteCosts => b.siteCosts
  | .buyOut => b.buyOut
  | .planning => b.planning
  | .aftercare => b.aftercare
  | .insurance => b.insurance
  | .bankGuarantee => b.bankGuarantee
  | .overhead => b.overhead
  | .risk => b.risk
  | .profit => b.profit
  | .preparation => b.preparation
  | .tenantGuidance => b.tenantGuidance

/-- The subtotal that a quotation shows behind a markup, if it shows one there. -/
def subtotalBehind? (b : Budget α) : Markup → Option α
  | .siteCosts => some b.afterSiteCosts
  | .buyOut => some b.afterBuyOut
  | .planning => some b.afterPlanning
  | .profit => some b.construction
  | .tenantGuidance => some b.afterAdditional
  | _ => none

def amounts (b : Budget α) : List α :=
  [b.direct, b.custom, b.base] ++ Markup.all.map b.amountOf ++
    Markup.all.filterMap b.subtotalBehind? ++
    [b.withoutVat, b.vat, b.withVat, b.perUnitWithVat, b.perUnitWithoutVat]

end

/-! ## Dwellings -/

theorem storedUnits_whole (n : ℤ) : storedUnits (.whole n) = .ok n.toNat := by
  unfold storedUnits
  split
  · rename_i h
    rw [show n = 0 from eq_of_beq h]
    rfl
  · rfl

theorem perUnit_eq (amount : ℚ) (units : ℕ) : perUnit amount units = .ok (amount / units) := by
  unfold perUnit
  split
  · rename_i h
    rw [eq_of_beq h, Nat.cast_zero, div_zero]
  · rfl

/-! ## The budget of an amount -/

/-- The direct costs with the custom amounts, which count only beside direct costs. -/
def baseOf (total : ℚ) (s : Settings ℚ) : ℚ :=
  max 0 total + if 0 < total then s.customAmounts.sum else 0

theorem baseOf_of_nonpos {total : ℚ} (h : total ≤ 0) (s : Settings ℚ) : baseOf total s = 0 := by
  rw [baseOf, max_eq_left h, if_neg h.not_gt, add_zero]

structure MadeFrom (total : ℚ) (s : Settings ℚ) (units : ℕ) (b : Budget ℚ) : Prop where
  direct : b.direct = max 0 total
  custom : b.custom = if 0 < total then s.customAmounts.sum else 0
  base : b.base = baseOf total s
  amount : ∀ m, b.amountOf m = b.base * (s.markup m / 100)
  subtotal : ∀ m x, b.subtotalBehind? m = some x → x = raised b.base (s.percentagesThrough m)
  withoutVat : b.withoutVat = b.afterAdditional
  vat : b.vat = b.withoutVat * (s.rate .vat / 100)
  withVat : b.withVat = b.withoutVat + b.vat
  perUnitWithVat : b.perUnitWithVat = b.withVat / units
  perUnitWithoutVat : b.perUnitWithoutVat = b.withoutVat / units

theorem calculate_returns (total : ℚ) (s : Settings ℚ) (units : ℕ) :
    ∃ b, calculate total s units = .ok b ∧ MadeFrom total s units b := by
  unfold calculate
  simp only [perUnit_eq, ok_bind, pure_eq]
  refine ⟨_, rfl, ?_⟩
  have hdirect : Number.greater 0 total = max 0 total := Exact.greater_eq_max 0 total
  have hcustom : (if Number.below 0 (Number.greater 0 total) then Number.sum s.customAmounts
      else 0) = if 0 < total then s.customAmounts.sum else 0 := by
    rw [hdirect, Exact.sum_eq]
    refine if_congr (decide_eq_true_iff.trans ?_) rfl rfl
    rw [lt_max_iff, or_iff_right (lt_irrefl 0)]
  refine ⟨hdirect, hcustom, congrArg₂ (· + ·) hdirect hcustom, ?_, ?_, rfl, rfl, rfl, rfl, rfl⟩
  · intro m
    cases m <;> rfl
  · intro m x hx
    -- each subtotal adds its markups to the one before it, the first to the base
    rw [← foldl_share_base]
    cases m with
    | siteCosts | buyOut | planning | profit | tenantGuidance =>
      cases hx
      rfl
    | aftercare | insurance | bankGuarantee | overhead | risk | preparation => cases hx

namespace MadeFrom

variable {total : ℚ} {s : Settings ℚ} {units : ℕ} {b : Budget ℚ} (h : MadeFrom total s units b)

include h

theorem withoutVat_eq : b.withoutVat = raised b.base (s.markups.map (·.2)) :=
  h.withoutVat.trans (h.subtotal .tenantGuidance _ rfl)

theorem sum_amounts : b.base + (Markup.all.map b.amountOf).sum = b.withoutVat := by
  have hamounts : b.amountOf = fun m => b.base / 100 * s.markup m := by
    funext m
    rw [h.amount, mul_div_assoc', div_mul_eq_mul_div]
  have hmarkups : s.markups.map (·.2) = Markup.all.map s.markup := rfl
  rw [h.withoutVat_eq, raised, hamounts, List.sum_map_mul_left, hmarkups]
  ring

theorem withVat_eq : b.withVat = b.withoutVat * (1 + s.rate .vat / 100) := by
  rw [h.withVat, h.vat, mul_add, mul_one]

theorem eq_zero_of_nonpos (htotal : total ≤ 0) : ∀ x ∈ b.amounts, x = 0 := by
  have hbase : b.base = 0 := h.base.trans (baseOf_of_nonpos htotal s)
  have hraised (percentages : List ℚ) : raised b.base percentages = 0 := by
    rw [raised, hbase, zero_mul]
  have hwithout : b.withoutVat = 0 := h.withoutVat_eq.trans (hraised _)
  have hvat : b.vat = 0 := by rw [h.vat, hwithout, zero_mul]
  have hwith : b.withVat = 0 := by rw [h.withVat, hwithout, hvat, add_zero]
  intro x hx
  simp only [amounts, List.mem_append, List.mem_cons, List.mem_map, List.mem_filterMap,
    List.not_mem_nil, or_false] at hx
  rcases hx with ((hx | ⟨m, -, rfl⟩) | ⟨m, -, hx⟩) | hx
  · rcases hx with rfl | rfl | rfl
    · rw [h.direct, max_eq_left htotal]
    · rw [h.custom, if_neg htotal.not_gt]
    · exact hbase
  · rw [h.amount, hbase, zero_mul]
  · rw [h.subtotal m x hx, hraised]
  · rcases hx with rfl | rfl | rfl | rfl | rfl
    · exact hwithout
    · exact hvat
    · exact hwith
    · rw [h.perUnitWithVat, hwith, zero_div]
    · rw [h.perUnitWithoutVat, hwithout, zero_div]

theorem perUnit_mul {count : ℤ} (hunits : units = count.toNat) (hcount : 0 < count) :
    b.perUnitWithVat * count = b.withVat ∧ b.perUnitWithoutVat * count = b.withoutVat := by
  have hcast : (units : ℚ) = count := by
    rw [hunits, ← Int.cast_natCast, Int.toNat_of_nonneg hcount.le]
  have hne : (count : ℚ) ≠ 0 := Int.cast_ne_zero.mpr hcount.ne'
  rw [h.perUnitWithVat, h.perUnitWithoutVat, hcast]
  exact ⟨div_mul_cancel₀ _ hne, div_mul_cancel₀ _ hne⟩

theorem perUnit_eq_zero (hunits : units = 0) :
    b.perUnitWithVat = 0 ∧ b.perUnitWithoutVat = 0 := by
  rw [h.perUnitWithVat, h.perUnitWithoutVat, hunits, Nat.cast_zero, div_zero, div_zero]
  exact ⟨rfl, rfl⟩

end MadeFrom

/-- The budget of any amount, with any settings and for any stored count of dwellings, in closed
form. Each subtotal is the base raised by the percentages up to its last markup, and the amount
without tax is the base raised by all of them, or the base with the amount of each markup once. An
amount of zero or less leaves nothing anywhere, and the prices of a dwelling come to the amounts
again, or are zero if there are no dwellings. -/
theorem calculate_raises_base (total : ℚ) (s : Settings ℚ) (count : ℤ) :
    ∃ units b, storedUnits (.whole count) = .ok units ∧ calculate total s units = .ok b ∧
      b.base = max 0 total + (if 0 < total then s.customAmounts.sum else 0) ∧
      (∀ m x, b.subtotalBehind? m = some x →
        x = b.base * (1 + (s.percentagesThrough m).sum / 100)) ∧
      b.withoutVat = b.base * (1 + (s.markups.map (·.2)).sum / 100) ∧
      (∀ m, Markup.all.count m = 1) ∧
      (∀ m, b.amountOf m = b.base * (s.markup m / 100)) ∧
      b.base + (Markup.all.map b.amountOf).sum = b.withoutVat ∧
      b.withVat = b.withoutVat * (1 + s.rate .vat / 100) ∧
      (total ≤ 0 → ∀ x ∈ b.amounts, x = 0) ∧
      (0 < count →
        b.perUnitWithVat * count = b.withVat ∧ b.perUnitWithoutVat * count = b.withoutVat) ∧
      (count ≤ 0 → b.perUnitWithVat = 0 ∧ b.perUnitWithoutVat = 0) := by
  obtain ⟨b, hb, h⟩ := calculate_returns total s count.toNat
  exact ⟨count.toNat, b, storedUnits_whole count, hb, h.base, h.subtotal, h.withoutVat_eq,
    Markup.count_all, h.amount, h.sum_amounts, h.withVat_eq, h.eq_zero_of_nonpos,
    h.perUnit_mul rfl, fun hcount => h.perUnit_eq_zero (Int.toNat_of_nonpos hcount)⟩

end Budget

end Renovation
