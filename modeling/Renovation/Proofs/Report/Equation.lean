import Renovation.Proofs.Formula.Leading
import Renovation.Proofs.PriceLine.Exact
import Renovation.Report.Explanation

set_option autoImplicit false

/-!
# Explanations as equations

An explanation says that the operands of a formula come to the quantity of its line. The operator in
front of the first operand is not written, so that the equation holds exactly if that operator is a
plus, which changes nothing, or if the first product is zero. The text is made from doubles and the
equation is meant exactly: the same line over the rational numbers has the same operands.
-/

namespace Renovation.Report

open Formula

/-- Named operands as they are written, each but the first behind its operator. -/
structure Expression (α : Type) where
  first : String × α
  others : List (Operator × String × α)

namespace Expression

variable {α β : Type}

def ofSteps (first : Step α) (rest : List (Step α)) : Expression α :=
  ⟨(first.name, first.value), rest.map fun step => (step.operator, step.name, step.value)⟩

def chain (e : Expression α) : Chain α :=
  ⟨e.first.2, e.others.map fun other => (other.1, other.2.2)⟩

def operandText (name : String) (x : Float) : String :=
  dutch 2 x ++ if countsDwellings name then " woningen" else ""

def text (e : Expression Float) : String :=
  operandText e.first.1 e.first.2 ++ String.join (e.others.map fun other =>
    s!" {printedSign other.1} {operandText other.2.1 other.2.2}")

def exact (e : Expression Float) : Expression ℚ :=
  ⟨(e.first.1, Number.ofDouble e.first.2),
    e.others.map fun other => (other.1, other.2.1, Number.ofDouble other.2.2)⟩

theorem explainSteps_cons (first : Step Float) (rest : List (Step Float)) :
    explainSteps (first :: rest) = (ofSteps first rest).text := by
  rw [text, ofSteps, List.map_map]
  rfl

theorem chain_ofSteps (first : Step α) (rest : List (Step α)) :
    (ofSteps first rest).chain = operandsOf first rest := by
  rw [chain, ofSteps, List.map_map]
  rfl

theorem exact_ofSteps {first : Step Float} {rest : List (Step Float)} {first' : Step ℚ}
    {rest' : List (Step ℚ)} (h : Alike first first') (hrest : List.Forall₂ Alike rest rest') :
    ofSteps first' rest' = (ofSteps first rest).exact := by
  have hvalue {s : Step Float} {t : Step ℚ} (alike : Alike s t) :
      t.value = Number.ofDouble s.value := by
    obtain ⟨x, hs, ht⟩ := alike.value
    rw [ht, hs]
    rfl
  have hothers : (rest'.map fun step => (step.operator, step.name, step.value)) =
      rest.map fun step => (step.operator, step.name, (Number.ofDouble step.value : ℚ)) := by
    induction hrest with
    | nil => rfl
    | cons alike _ ih =>
      rw [List.map_cons, List.map_cons, ih, alike.operator, alike.name, hvalue alike]
  rw [ofSteps, ofSteps, exact, h.name, hvalue h, hothers, List.map_map]
  rfl

end Expression

theorem unread_eq_zero_iff (op : Operator) (p : ℚ) : op.unread p = 0 ↔ op = .plus ∨ p = 0 := by
  rcases eq_or_ne op .plus with rfl | hop
  · exact iff_of_true rfl (.inl rfl)
  · rw [or_iff_right hop]
    cases op with
    | plus => exact absurd rfl hop
    | minus => exact mul_eq_zero_iff_left two_ne_zero
    | times | dividedBy | other => exact Iff.rfl

/-- The explanation of a valid line whose formula has no two operators in a row is a text of
operands and the quantity. Worked out exactly, the operands come to the quantity and to what the
operator at the start, which is not written, would have taken away. They come to the quantity
itself exactly if that operator is a plus or there is none, or if the first product is zero. -/
theorem explanation_holds_iff (c : Circumstances) (stored : Datum) (first : Step Float)
    (rest : List (Step Float))
    (valid : (LineResult.ofStored c stored : LineResult Float).isValid = true)
    (hsteps : (LineResult.ofStored c stored : LineResult Float).steps = first :: rest)
    (apart : Apart (tokens (stored.field "calculation"))) :
    let line : LineResult Float := .ofStored c stored
    let exact : LineResult ℚ := .ofStored c stored
    let op := leading (tokens (stored.field "calculation"))
    let e := Expression.ofSteps first rest
    explainLine line = s!"({e.text} = {explainQuantity line})" ∧ exact.isValid = true ∧
      (∃ first' rest', exact.steps = first' :: rest' ∧ Expression.ofSteps first' rest' = e.exact) ∧
      ∃ v p, e.exact.chain.value = .ok v ∧ e.exact.chain.product = .ok p ∧
        v = exact.quantity + op.unread p ∧ (v = exact.quantity ↔ op = .plus ∨ p = 0) := by
  intro line exact op e
  obtain ⟨hvalid, alike⟩ := LineResult.ofStored_alike (β := ℚ) sameZeros_exact valid
  rw [hsteps] at alike
  obtain ⟨first', rest', hfirst, hrest, hsteps'⟩ := List.forall₂_cons_left_iff.mp alike
  have hexact := Expression.exact_ofSteps hfirst hrest
  have hvalue := LineResult.evaluate_of_valid hvalid
  rw [hsteps'] at hvalue
  obtain ⟨v, p, hv, hp, heq⟩ :=
    value_operandsOf apart (fun _ => isFactor_or_isSign_of_mem_tokens) hvalue
  rw [← Expression.chain_ofSteps, hexact] at hv hp
  refine ⟨?_, hvalid, ⟨first', rest', hsteps', hexact⟩, v, p, hv, hp, heq, ?_⟩
  · rw [explainLine, hsteps, Expression.explainSteps_cons]
    rfl
  · rw [← unread_eq_zero_iff, heq]
    exact add_eq_left

theorem explanation_of_product :
    let stored := Datum.record [("name", .text "Isolatie"), ("unit", .text "m³"),
      ("calculation", Formula.stored [.operand "aantalWoningen", .operator .times, .operand "dikte",
        .operand "oppervlak", .operator .plus]), ("price", .real 5.0)]
    let c : Circumstances := { context := .record [("aantalWoningen", .real 2.0),
      ("dikte", .real 3.0), ("oppervlak", .real 10.0)] }
    let line : LineResult Float := .ofStored c stored
    let first : Step Float := ⟨"aantalWoningen", 2.0, .plus, 2.0⟩
    let rest : List (Step Float) :=
      [⟨"dikte", 3.0, .times, 2.0 * 3.0⟩, ⟨"oppervlak", 10.0, .times, 2.0 * 3.0 * 10.0⟩]
    line.isValid = true ∧ line.steps = first :: rest ∧
      Apart (tokens (stored.field "calculation")) ∧
      explainLine line = "(2,00 woningen × 3,00 × 10,00 = 60,00 m³ × €5,00)" ∧
      (Expression.ofSteps first rest).exact.chain.value =
        .ok (LineResult.ofStored c stored : LineResult ℚ).quantity := by
  intro stored c line first rest
  have hvalid : line.isValid = true := by rfl
  have hsteps : line.steps = first :: rest := by rfl
  have htokens : tokens (stored.field "calculation") = [.operand "aantalWoningen",
    .operator .times, .operand "dikte", .operand "oppervlak", .operator .plus] := by rfl
  have apart : Apart (tokens (stored.field "calculation")) := by
    rw [htokens, Apart]
    simp [Token.operator?]
  obtain ⟨-, -, -, v, p, hv, -, -, hiff⟩ :=
    explanation_holds_iff c stored first rest hvalid hsteps apart
  have hplus : leading (tokens (stored.field "calculation")) = .plus := by
    rw [htokens]
    rfl
  rw [hiff.mpr (.inl hplus)] at hv
  exact ⟨hvalid, hsteps, apart, by decide +kernel, hv⟩

/-- The minus at the start is not written: the operands come to twelve and the quantity is eight. -/
theorem explanation_without_minus :
    let stored := Datum.record [("name", .text "Dak"), ("calculation", Formula.stored
      [.operator .minus, .operand "a", .operator .plus, .operand "b"]), ("price", .real 5.0)]
    let c : Circumstances := { context := .record [("a", .real 2.0), ("b", .real 10.0)] }
    let line : LineResult Float := .ofStored c stored
    let first : Step Float := ⟨"a", 2.0, .minus, 0.0 - 2.0⟩
    let rest : List (Step Float) := [⟨"b", 10.0, .plus, 0.0 - 2.0 + 10.0⟩]
    line.isValid = true ∧ line.steps = first :: rest ∧
      Apart (tokens (stored.field "calculation")) ∧
      explainLine line = "(2,00 + 10,00 = 8,00 m² × €5,00)" ∧
      (Expression.ofSteps first rest).exact.chain.value = .ok 12 ∧
      (LineResult.ofStored c stored : LineResult ℚ).quantity = 8 := by
  intro stored c line first rest
  have htokens : tokens (stored.field "calculation") =
      [.operator .minus, .operand "a", .operator .plus, .operand "b"] := by rfl
  have apart : Apart (tokens (stored.field "calculation")) := by
    rw [htokens, Apart]
    simp [Token.operator?]
  have hfirst : first.value = 2.0 := rfl
  have hsum : (Expression.ofSteps first rest).exact.chain.value = .ok 12 := by
    change Except.ok ((Number.ofDouble first.value : ℚ) + Number.ofDouble 10.0) = .ok 12
    rw [hfirst]
    exact congrArg Except.ok (by decide +kernel)
  exact ⟨rfl, rfl, apart, by decide +kernel, hsum, by decide +kernel⟩

end Renovation.Report
