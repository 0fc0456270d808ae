import Renovation.Proofs.Datum.Conversion
import Renovation.Proofs.Document.Legible
import Renovation.Proofs.Formula.Sign

set_option autoImplicit false

/-!
# Operands that cannot be used

A name without a value, a value that is no number and a zero that is divided by end an evaluation.
The main statement is that nothing else does: no division by zero is ever worked out, an evaluation
returns exactly if the values that are looked up can be converted, and the first operand that cannot
be used decides the error.
-/

namespace Renovation

def Datum.isSingle : Datum → Bool
  | .list _ | .record _ => false
  | _ => true

namespace Formula

open Outcome

/-! ## Looking a name up -/

theorem throughAlias_returns {aliases : Aliases}
    (single : ∀ entry ∈ aliases, entry.2.isSingle = true) (context : Datum) (name : String) :
    ∃ found, throughAlias aliases context name = .ok found := by
  rw [throughAlias]
  cases h : aliases.lookup name with
  | none => exact ⟨none, rfl⟩
  | some entry =>
    obtain ⟨front, back, rfl, _⟩ := List.lookup_eq_some_iff.mp h
    have hs := single (name, entry) (by simp)
    cases entry with
    | list items => cases hs
    | record fields => cases hs
    | null => exact ⟨none, rfl⟩
    | flag b => exact ⟨_, rfl⟩
    | whole n => exact ⟨_, rfl⟩
    | real x => exact ⟨_, rfl⟩
    | text current => exact ⟨_, rfl⟩

theorem resolve_returns {aliases : Aliases} {context : Datum}
    (single : ∀ entry ∈ aliases, entry.2.isSingle = true) (object : context.isRecord = true)
    (name : String) : ∃ found, resolve aliases context name = .ok found := by
  rw [resolve, object]
  cases direct? context name with
  | some value => exact ⟨some value, rfl⟩
  | none =>
    obtain ⟨found, h⟩ := throughAlias_returns single context name
    simp only [Bool.not_true, Bool.false_eq_true, if_false, h, ok_bind]
    cases found with
    | some value => exact ⟨some value, rfl⟩
    | none => exact ⟨dimensionOrLiteral? context name, rfl⟩

/-! ## Using an operand -/

section

variable (α : Type) [Number α] (aliases : Aliases) (context : Datum)

def Missing (name : String) : Prop := resolve aliases context name = .ok none

def NotNumeric (name : String) : Prop :=
  ∃ d, resolve aliases context name = .ok (some d) ∧ d.number = .ok none

def ReadsAs (name : String) (x : Float) : Prop :=
  ∃ d, resolve aliases context name = .ok (some d) ∧ d.number = .ok (some x)

/-- A value converts to a number, or is none and converts to the text that says so. -/
def Converts (d : Datum) : Prop := ∃ x?, d.number = .ok x? ∧ (x? = none → d.isWritable = true)

/-- Behind these tokens an operand is divided by: a division sign stands right in front of it, or an
operand does and the last operator seen is a division sign. -/
def AfterDivision (before : List Token) : Prop :=
  before.getLast? = some (.operator .dividedBy) ∨
    (∃ name, before.getLast? = some (.operand name)) ∧ lastOperator before = .dividedBy

def ZeroDivisor (before : List Token) (name : String) : Prop :=
  AfterDivision before ∧
    ∃ x, ReadsAs aliases context name x ∧ Number.isZero (Number.ofDouble x : α) = true

def Unusable (before : List Token) (name : String) : Prop :=
  Missing aliases context name ∨ NotNumeric aliases context name ∨
    ZeroDivisor α aliases context before name

/-- The operand behind `before` is looked up: every operand in front of it can be used. -/
def LookedUp (ts before : List Token) (name : String) : Prop :=
  ∃ after, ts = before ++ .operand name :: after ∧
    ∀ front name' back, before = front ++ .operand name' :: back →
      ¬ Unusable α aliases context front name'

end

variable {aliases : Aliases} {context : Datum}

theorem ReadsAs.not_missing {name : String} {x : Float} (h : ReadsAs aliases context name x) :
    ¬ Missing aliases context name := by
  obtain ⟨d, hd, _⟩ := h
  intro hm
  cases hd.symm.trans hm

theorem ReadsAs.not_notNumeric {name : String} {x : Float} (h : ReadsAs aliases context name x) :
    ¬ NotNumeric aliases context name := by
  obtain ⟨d, hd, hn⟩ := h
  rintro ⟨d', hd', hn'⟩
  cases hd.symm.trans hd'
  cases hn.symm.trans hn'

theorem ReadsAs.unique {name : String} {x y : Float} (h : ReadsAs aliases context name x)
    (h' : ReadsAs aliases context name y) : x = y := by
  obtain ⟨d, hd, hn⟩ := h
  obtain ⟨d', hd', hn'⟩ := h'
  cases hd.symm.trans hd'
  cases hn.symm.trans hn'
  rfl

variable {α : Type} [Number α]

theorem afterDivision_iff (before : List Token) :
    AfterDivision before ↔ lastOperator before = .dividedBy := by
  rcases List.eq_nil_or_concat before with rfl | ⟨front, t, rfl⟩
  · constructor
    · rintro (h | ⟨⟨_, h⟩, _⟩) <;> cases h
    · exact nofun
  · rw [List.concat_eq_append, AfterDivision, List.getLast?_append, List.getLast?_singleton]
    cases t with
    | operand name => simp
    | operator op => simp [lastOperator, Token.operator?]

theorem operandValue_eq_ok_iff {p : Progress α} {name : String} {v : Except EvaluationError α} :
    operandValue aliases context p name = .ok v ↔
      (Missing aliases context name ∧ v = .error (.missing name)) ∨
      (∃ d, resolve aliases context name = .ok (some d) ∧ d.number = .ok none ∧
        d.isWritable = true ∧ v = .error (.notNumeric name d)) ∨
      ∃ x, ReadsAs aliases context name x ∧
        v = if p.sign = .dividedBy ∧ Number.isZero (Number.ofDouble x : α) = true
          then .error (.zeroDivisor name) else .ok (Number.ofDouble x) := by
  have hd : (p.dividesNext = true) = (p.sign = .dividedBy) := propext p.dividesNext_iff
  simp only [operandValue, Missing, ReadsAs]
  cases resolve aliases context name with
  | error fault => simp
  | ok found =>
    cases found with
    | none => simp [@eq_comm _ v]
    | some d =>
      cases hn : d.number with
      | error fault => simp [hn]
      | ok number =>
        cases number with
        | none => cases hw : d.isWritable <;> simp [Datum.requireWritable, hn, hw, @eq_comm _ v]
        | some x => simp [hn, hd, @eq_comm _ v]

theorem operandValue_eq_used_iff {p : Progress α} {name : String} {x : α} :
    operandValue aliases context p name = .ok (.ok x) ↔
      ∃ y, ReadsAs aliases context name y ∧ x = Number.ofDouble y ∧
        ¬ (p.sign = .dividedBy ∧ Number.isZero x = true) := by
  rw [operandValue_eq_ok_iff]
  constructor
  · rintro (⟨_, h⟩ | ⟨_, _, _, _, h⟩ | ⟨y, hy, h⟩)
    · cases h
    · cases h
    · split at h
      · cases h
      · rename_i hz
        cases h
        exact ⟨y, hy, rfl, hz⟩
  · rintro ⟨y, hy, rfl, hz⟩
    exact .inr (.inr ⟨y, hy, (if_neg hz).symm⟩)

theorem not_unusable {p : Progress α} {before : List Token} {name : String} {x : α}
    (hs : p.sign = lastOperator before)
    (h : operandValue aliases context p name = .ok (.ok x)) :
    ¬ Unusable α aliases context before name := by
  obtain ⟨y, hy, rfl, hx⟩ := operandValue_eq_used_iff.mp h
  rintro (hm | hn | ⟨ha, y', hy', hz⟩)
  · exact hy.not_missing hm
  · exact hy.not_notNumeric hn
  · cases hy.unique hy'
    exact hx ⟨hs.trans ((afterDivision_iff before).mp ha), hz⟩

theorem unusable_of_error {p : Progress α} {before : List Token} {name : String}
    {error : EvaluationError} (hs : p.sign = lastOperator before)
    (h : operandValue aliases context p name = .ok (.error error)) :
    Unusable α aliases context before name ∧
      ∀ name', error = .zeroDivisor name' ↔
        name' = name ∧ ZeroDivisor α aliases context before name := by
  rcases operandValue_eq_ok_iff.mp h with ⟨hm, h⟩ | ⟨d, hd, hn, _, h⟩ | ⟨x, hx, h⟩
  · cases h
    refine ⟨.inl hm, fun name' => ⟨nofun, ?_⟩⟩
    rintro ⟨-, -, x, hx, -⟩
    exact absurd hm hx.not_missing
  · cases h
    refine ⟨.inr (.inl ⟨d, hd, hn⟩), fun name' => ⟨nofun, ?_⟩⟩
    rintro ⟨-, -, x, hx, -⟩
    exact absurd ⟨d, hd, hn⟩ hx.not_notNumeric
  · split at h
    · rename_i hz
      cases h
      have zero : ZeroDivisor α aliases context before name :=
        ⟨(afterDivision_iff before).mpr (hs.symm.trans hz.1), x, hx, hz.2⟩
      refine ⟨.inr (.inr zero), fun name' => ⟨fun he => ?_, fun he => ?_⟩⟩
      · cases he
        exact ⟨rfl, zero⟩
      · rw [he.1]
    · cases h

theorem Reaches.not_unusable {q : Progress α} {front back : List Token} {name : String}
    (h : Reaches aliases context .start (front ++ .operand name :: back) q) :
    ¬ Unusable α aliases context front name := by
  obtain ⟨p, hp, hq⟩ := h.exists_of_append
  cases hq with
  | operand hx _ _ => exact Formula.not_unusable hp.sign hx

theorem Reaches.lookedUp {p : Progress α} {before after : List Token} {name : String}
    (h : Reaches aliases context .start before p) :
    LookedUp α aliases context (before ++ .operand name :: after) before name := by
  refine ⟨after, rfl, ?_⟩
  rintro front name' back rfl
  exact h.not_unusable

theorem operandValue_returns {p : Progress α} {name : String}
    (single : ∀ entry ∈ aliases, entry.2.isSingle = true) (object : context.isRecord = true)
    (converts : ∀ d, resolve aliases context name = .ok (some d) → Converts d) :
    ∃ v, operandValue aliases context p name = .ok v := by
  obtain ⟨found, hf⟩ := resolve_returns single object name
  cases found with
  | none => exact ⟨_, operandValue_eq_ok_iff.mpr (.inl ⟨hf, rfl⟩)⟩
  | some d =>
    obtain ⟨x?, hn, hw⟩ := converts d hf
    cases x? with
    | none => exact ⟨_, operandValue_eq_ok_iff.mpr (.inr (.inl ⟨d, hf, hn, hw rfl, rfl⟩))⟩
    | some x => exact ⟨_, operandValue_eq_ok_iff.mpr (.inr (.inr ⟨x, ⟨d, hf, hn⟩, rfl⟩))⟩

theorem Reaches.evaluateFrom_returns {p : Progress α} {before rest : List Token}
    (h : Reaches aliases context .start before p)
    (single : ∀ entry ∈ aliases, entry.2.isSingle = true) (object : context.isRecord = true)
    (converts : ∀ front name d, LookedUp α aliases context (before ++ rest) front name →
      resolve aliases context name = .ok (some d) → Converts d) :
    ∃ e, evaluateFrom aliases context p rest = .ok e := by
  induction rest generalizing before p with
  | nil =>
    have hv : valueOf p.items = .ok p.result := h.settled settled_start
    exact ⟨_, by rw [evaluateFrom, hv]; rfl⟩
  | cons t rest ih =>
    cases t with
    | operator op =>
      rw [List.append_cons] at converts
      exact ih (h.append (.operator (.done _))) converts
    | operand name =>
      obtain ⟨v, hv⟩ := operandValue_returns (p := p) single object fun d hd =>
        converts before name d h.lookedUp hd
      rw [evaluateFrom, hv, ok_bind]
      cases v with
      | error error => exact ⟨_, rfl⟩
      | ok x =>
        obtain ⟨_, _, _, hx⟩ := operandValue_eq_used_iff.mp hv
        obtain ⟨p', hp'⟩ := (h.settled settled_start).operand hx name
        rw [List.append_cons] at converts
        simp only [hp', ok_bind]
        exact ih (h.append (.operand hv hp' (.done _))) converts

omit [Number α] in
theorem places {β : Type} {before after before' after' : List β} {t t' : β}
    (h : before ++ t :: after = before' ++ t' :: after') :
    (before = before' ∧ t = t') ∨ (∃ c, before' = before ++ t :: c) ∨
      ∃ c, before = before' ++ t' :: c := by
  rcases List.append_eq_append_iff.mp h with ⟨c, rfl, hc⟩ | ⟨c, rfl, hc⟩
  · cases c with
    | nil => exact .inl ⟨(List.append_nil _).symm, (List.cons.inj hc).1⟩
    | cons s c => exact .inr (.inl ⟨c, by rw [(List.cons.inj hc).1]⟩)
  · cases c with
    | nil => exact .inl ⟨List.append_nil _, ((List.cons.inj hc).1).symm⟩
    | cons s c => exact .inr (.inr ⟨c, by rw [(List.cons.inj hc).1]⟩)

theorem read_eq_ok_iff {stored : Datum} {ts : List Token} :
    read stored = .ok ts ↔ (∀ m ∈ mentions stored, m.isWritable = true) ∧ ts = tokens stored := by
  simp only [read, bind_eq_ok, Mention.check_eq_ok_iff, pure_eq, Except.ok.injEq, exists_const,
    @eq_comm _ ts]

end Formula

end Renovation
