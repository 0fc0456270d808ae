import Renovation.Proofs.Decimal.Difference
import Renovation.Proofs.Formula.Operand

set_option autoImplicit false

/-!
# One formula over two types of numbers

What an evaluation looks up and writes down does not depend on the type of numbers, and where it
ends depends on it in one point only: which of the stored doubles are zero. A formula with a value
over doubles therefore has one over the rational numbers, by the same steps.
-/

namespace Renovation.Formula

open Outcome Decimal

section

variable (α β : Type) [Number α] [Number β]

def SameZeros : Prop := ∀ x : Float, Datum.isFinite x = true →
  Number.isZero (Number.ofDouble x : α) = Number.isZero (Number.ofDouble x : β)

end

theorem sameZeros_exact : SameZeros Float ℚ := by
  intro x hx
  obtain ⟨z, hz⟩ := exists_holdsInt hx
  have hunits : (unitsOfOne : ℚ) ≠ 0 := Nat.cast_ne_zero.mpr unitsOfOne_pos.ne'
  rw [Bool.eq_iff_iff, Exact.isZero_iff, hz.value, div_eq_zero_iff, or_iff_left hunits,
    Int.cast_eq_zero]
  exact hz.isZero_iff

structure Alike {α β : Type} [Number α] [Number β] (s : Step α) (t : Step β) : Prop where
  name : t.name = s.name
  operator : t.operator = s.operator
  value : ∃ x : Float, s.value = Number.ofDouble x ∧ t.value = Number.ofDouble x

variable {α β : Type} [Number α] [Number β] {aliases : Aliases} {context : Datum}

theorem ReadsAs.isFinite {name : String} {x : Float} (h : ReadsAs aliases context name x) :
    Datum.isFinite x = true := by
  obtain ⟨d, -, hnumber⟩ := h
  exact isFinite_of_number hnumber

theorem Reaches.exists_alike (same : SameZeros α β) {ts : List Token} {q : Progress α}
    (h : Reaches aliases context .start ts q) :
    ∃ q' : Progress β, Reaches aliases context .start ts q' ∧
      List.Forall₂ Alike q.steps q'.steps := by
  refine h.keeps (fun ts q => ∃ q' : Progress β, Reaches aliases context .start ts q' ∧
    List.Forall₂ Alike q.steps q'.steps) ⟨.start, .done _, .nil⟩ ?_ ?_
  · rintro before p op - ⟨p', hp', alike⟩
    exact ⟨p'.operator op, hp'.append (.operator (.done _)), alike⟩
  · rintro before p r name x hp hx hr ⟨p', hp', alike⟩
    obtain ⟨y, hy, rfl, hzero⟩ := operandValue_eq_used_iff.mp hx
    have hsign : p'.sign = p.sign := hp'.sign.trans hp.sign.symm
    rw [← hsign, same y hy.isFinite] at hzero
    obtain ⟨r', hr'⟩ := (hp'.settled settled_start).operand hzero name
    have hx' : operandValue aliases context p' name = .ok (.ok (Number.ofDouble y)) :=
      operandValue_eq_used_iff.mpr ⟨y, hy, rfl, hzero⟩
    refine ⟨r', hp'.append (.operand hx' hr' (.done _)), ?_⟩
    obtain ⟨_, -, rfl⟩ := operand_eq_ok hr
    obtain ⟨_, -, rfl⟩ := operand_eq_ok hr'
    exact List.rel_append alike (.cons ⟨rfl, hsign, y, rfl, rfl⟩ .nil)

/-- A formula with a value over one type of numbers has one over the other, by the same steps. -/
theorem evaluate_alike (same : SameZeros α β) {ts : List Token} {steps : List (Step α)} {x : α}
    (h : evaluate aliases context ts = .ok ⟨steps, .ok x⟩) :
    ∃ (steps' : List (Step β)) (y : β),
      evaluate aliases context ts = .ok ⟨steps', .ok y⟩ ∧ List.Forall₂ Alike steps steps' := by
  rcases evaluateFrom_eq_ok_iff.mp h with ⟨q, y, hq, -, he⟩ | ⟨_, _, _, _, _, _, _, _, he⟩
  · cases he
    obtain ⟨q', hq', alike⟩ := hq.exists_alike same
    have hvalue : valueOf q'.items = .ok q'.result := hq'.settled settled_start
    exact ⟨q'.steps, q'.result,
      evaluateFrom_eq_ok_iff.mpr (.inl ⟨q', _, hq', hvalue, rfl⟩), alike⟩
  · cases he

end Renovation.Formula
