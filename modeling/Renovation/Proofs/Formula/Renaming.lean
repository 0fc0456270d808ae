import Renovation.Formula.Evaluation
import Renovation.Proofs.Formula.Progress

set_option autoImplicit false

/-!
# Renaming variables

What a name is does not matter to an evaluation, only what it stands for. `evaluate_view` compares
two evaluations step by step: if each name of a formula stands for the same in one context as its
new name does in another, they come to the same end with the same values, and only the names in the
steps and in the error differ. What a name stands for matters only so far as it is there and is a
number; all else about it can be seen in the error alone, so the names need only look the same. The
main statement applies this to the table of older names.
-/

namespace Renovation.Formula

open Outcome

variable {α : Type}

/-! ## New names -/

def Token.rename (f : String → String) : Token → Token
  | operand name => operand (f name)
  | operator op => operator op

def Step.rename (f : String → String) (s : Step α) : Step α := { s with name := f s.name }

namespace EvaluationError

def rename (f : String → String) : EvaluationError → EvaluationError
  | missing name => missing (f name)
  | notNumeric name value => notNumeric (f name) value
  | zeroDivisor name => zeroDivisor (f name)

inductive Kind where
  | missing
  | notNumeric
  | zeroDivisor
deriving DecidableEq

def kind : EvaluationError → Kind
  | missing _ => .missing
  | notNumeric _ _ => .notNumeric
  | zeroDivisor _ => .zeroDivisor

theorem kind_rename (f : String → String) (error : EvaluationError) :
    (error.rename f).kind = error.kind := by
  cases error <;> rfl

def view (g : Datum → Datum) : EvaluationError → EvaluationError
  | notNumeric name value => notNumeric name (g value)
  | error => error

theorem view_id (error : EvaluationError) : error.view id = error := by
  cases error <;> rfl

theorem kind_view (g : Datum → Datum) (error : EvaluationError) :
    (error.view g).kind = error.kind := by
  cases error <;> rfl

end EvaluationError

def Progress.rename (f : String → String) (p : Progress α) : Progress α :=
  { p with steps := p.steps.map (Step.rename f) }

namespace Evaluation

def rename (f : String → String) (e : Evaluation α) : Evaluation α where
  steps := e.steps.map (Step.rename f)
  outcome := e.outcome.mapError (EvaluationError.rename f)

theorem error?_rename (f : String → String) (e : Evaluation α) :
    (e.rename f).error? = e.error?.map (EvaluationError.rename f) := by
  obtain ⟨steps, outcome⟩ := e
  cases outcome <;> rfl

theorem value_rename [Zero α] (f : String → String) (e : Evaluation α) :
    (e.rename f).value = e.value := by
  obtain ⟨steps, outcome⟩ := e
  cases outcome <;> rfl

def view (g : Datum → Datum) (e : Evaluation α) : Evaluation α :=
  { e with outcome := e.outcome.mapError (EvaluationError.view g) }

/-- The steps, the value and the kind of error, without the text of the error. -/
def outline [Zero α] (e : Evaluation α) : List (Step α) × α × Option EvaluationError.Kind :=
  (e.steps, e.value, e.error?.map EvaluationError.kind)

theorem outline_view [Zero α] (g : Datum → Datum) (e : Evaluation α) :
    (e.view g).outline = e.outline := by
  obtain ⟨steps, outcome⟩ := e
  cases outcome with
  | ok x => rfl
  | error error => exact congrArg (fun kind => (steps, 0, some kind)) (error.kind_view g)

theorem view_id (e : Evaluation α) : e.view id = e := by
  obtain ⟨steps, outcome⟩ := e
  cases outcome with
  | ok x => rfl
  | error error => exact congrArg (Evaluation.mk steps ∘ Except.error) error.view_id

theorem rename_id (e : Evaluation α) : e.rename id = e := by
  obtain ⟨steps, outcome⟩ := e
  have hsteps : steps.map (Step.rename id) = steps := List.map_id steps
  have houtcome : outcome.mapError (EvaluationError.rename id) = outcome := by
    cases outcome with
    | ok x => rfl
    | error error => cases error <;> rfl
  rw [rename, hsteps, houtcome]

end Evaluation

theorem map_view_id (run : Except Fault (Evaluation α)) : run.map (Evaluation.view id) = run := by
  cases run with
  | error fault => rfl
  | ok e => exact congrArg Except.ok e.view_id

theorem map_rename_id (ts : List Token) : ts.map (Token.rename id) = ts := by
  have h : Token.rename id = id := by
    funext t
    cases t <;> rfl
  rw [h, List.map_id]

/-! ## Two evaluations -/

variable [Number α] {aliases aliases' : Aliases} {context context' : Datum}

theorem Progress.operand_rename (f : String → String) (p : Progress α) (name : String) (x : α) :
    (p.rename f).operand (f name) x = (p.operand name x).map (Progress.rename f) := by
  have hjoined : (p.rename f).joined = p.joined := rfl
  have hsign : (p.rename f).sign = p.sign := rfl
  rw [operand, operand, hjoined, hsign]
  cases valueOf (p.joined ++ [.value x]) with
  | error fault => rfl
  | ok result =>
    simp only [ok_bind, pure_eq, Except.map, rename, List.map_append, List.map_cons]
    rfl

theorem operandValue_view (f : String → String) {g : Datum → Datum}
    (number : ∀ d, (g d).number = d.number) (writable : ∀ d, (g d).isWritable = d.isWritable)
    (p : Progress α) {name : String}
    (same : (resolve aliases' context' (f name)).map (Option.map g) =
      (resolve aliases context name).map (Option.map g)) :
    (operandValue aliases' context' (p.rename f) (f name)).map
        (Except.mapError (EvaluationError.view g)) =
      (operandValue aliases context p name).map
        (Except.mapError fun error => (error.rename f).view g) := by
  have hdivides : (p.rename f).dividesNext = p.dividesNext := rfl
  unfold operandValue
  rw [hdivides]
  rcases map_eq_map same with ⟨fault, hf', hf⟩ | ⟨found', found, hf', hf, hsame⟩
  · rw [hf', hf]
    rfl
  rw [hf', hf]
  cases found with
  | none =>
    cases Option.map_eq_none_iff.mp hsame
    rfl
  | some d =>
    obtain ⟨d', rfl, hd⟩ := Option.map_eq_some_iff.mp hsame
    have hn : d'.number = d.number := by rw [← number d', hd, number]
    have hw : d'.requireWritable = d.requireWritable := by
      unfold Datum.requireWritable
      rw [← writable d', hd, writable]
    simp only [ok_bind, hn]
    cases d.number with
    | error fault => rfl
    | ok x? =>
      cases x? with
      | none =>
        have he : (EvaluationError.notNumeric (f name) d').view g =
            (EvaluationError.notNumeric (f name) d).view g :=
          congrArg (EvaluationError.notNumeric (f name)) hd
        simp only [ok_bind, hw]
        cases d.requireWritable with
        | error fault => rfl
        | ok u => exact congrArg (fun error => Except.ok (Except.error error)) he
      | some x =>
        simp only [ok_bind, pure_eq]
        split <;> rfl

theorem evaluateFrom_view (f : String → String) {g : Datum → Datum}
    (number : ∀ d, (g d).number = d.number) (writable : ∀ d, (g d).isWritable = d.isWritable)
    (p : Progress α) {ts : List Token}
    (same : ∀ name ∈ operands ts, (resolve aliases' context' (f name)).map (Option.map g) =
      (resolve aliases context name).map (Option.map g)) :
    (evaluateFrom aliases' context' (p.rename f) (ts.map (Token.rename f))).map
        (Evaluation.view g) =
      (evaluateFrom aliases context p ts).map fun e => (e.rename f).view g := by
  induction ts generalizing p with
  | nil =>
    have hitems : (p.rename f).items = p.items := rfl
    rw [List.map_nil, evaluateFrom, evaluateFrom, hitems]
    cases valueOf p.items <;> rfl
  | cons t rest ih =>
    cases t with
    | operator op => exact ih (p.operator op) same
    | operand name =>
      have hname := operandValue_view f number writable p (same name List.mem_cons_self)
      have hrest := fun q => ih q fun other hm => same other (List.mem_cons_of_mem _ hm)
      rw [List.map_cons, Token.rename, evaluateFrom, evaluateFrom]
      rcases map_eq_map hname with ⟨fault, hv', hv⟩ | ⟨v', v, hv', hv, hsame⟩
      · rw [hv', hv]
        rfl
      rw [hv', hv]
      cases v with
      | error error =>
        cases v' with
        | ok x' => cases hsame
        | error error' =>
          have he : error'.view g = (error.rename f).view g := Except.error.inj hsame
          change Except.ok (Evaluation.mk _ (.error (error'.view g))) = _
          rw [he]
          rfl
      | ok x =>
        cases v' with
        | error error' => cases hsame
        | ok x' =>
          obtain rfl : x' = x := Except.ok.inj hsame
          simp only [ok_bind]
          rw [Progress.operand_rename]
          cases p.operand name x' with
          | error fault => rfl
          | ok q => exact hrest q

/-- Where the names of a formula look the same through `g` as their new names do, so do the two
evaluations, but for the names. -/
theorem evaluate_view (f : String → String) {g : Datum → Datum}
    (number : ∀ d, (g d).number = d.number) (writable : ∀ d, (g d).isWritable = d.isWritable)
    {ts : List Token}
    (same : ∀ name ∈ operands ts, (resolve aliases' context' (f name)).map (Option.map g) =
      (resolve aliases context name).map (Option.map g)) :
    (evaluate aliases' context' (ts.map (Token.rename f))).map (Evaluation.view g) =
      (evaluate aliases context ts : Except Fault (Evaluation α)).map
        fun e => (e.rename f).view g :=
  evaluateFrom_view f number writable .start same

theorem evaluate_rename (f : String → String) {ts : List Token}
    (same : ∀ name ∈ operands ts,
      resolve aliases' context' (f name) = resolve aliases context name) :
    evaluate aliases' context' (ts.map (Token.rename f)) =
      ((evaluate aliases context ts).map (Evaluation.rename f) : Except Fault (Evaluation α)) := by
  have h := evaluate_view (α := α) f (g := id) (fun _ => rfl) (fun _ => rfl) fun name hm =>
    congrArg (Except.map (Option.map id)) (same name hm)
  simp only [map_view_id, Evaluation.view_id] at h
  exact h

/-! ## Older names -/

/-- The name that replaced an older one. Constants and other names keep theirs. -/
def currentName (name : String) : String :=
  match standardAliases.lookup name with
  | some (.text current) => current
  | _ => name

def isWord (s : String) : Bool :=
  decide (',' ∉ (Text.trim s).toList) && (Decimal.readDouble? (Text.trim s)).isNone

theorem numberOfText?_of_isWord {s : String} (h : isWord s = true) :
    Datum.numberOfText? s = none := by
  obtain ⟨hcomma, hread⟩ := Bool.and_eq_true_iff.mp h
  have hpoint : Datum.withDecimalPoint (Text.trim s) = Text.trim s := by
    rw [Datum.withDecimalPoint, String.contains_char_eq, decide_eq_false (of_decide_eq_true hcomma)]
    rfl
  rw [Datum.numberOfText?, hpoint, Option.isNone_iff_eq_none.mp hread]
  rfl

/-- A name that replaced another is not empty and no older name itself, and neither is a number
written out. -/
def replaces (name : String) : Datum → Bool
  | .text current =>
    !current.isEmpty && (standardAliases.lookup current).isNone && isWord name && isWord current
  | _ => true

theorem replaces_of_lookup {name : String} {entry : Datum}
    (h : standardAliases.lookup name = some entry) : replaces name entry = true := by
  have hall : ∀ e ∈ standardAliases, replaces e.1 e.2 = true := by decide +kernel
  obtain ⟨front, back, hsplit, -⟩ := List.lookup_eq_some_iff.mp h
  exact hall (name, entry) (by rw [hsplit]; simp)

/-- Nothing is known under the older name, and what the dimensions say does not depend on which of
the two names is used. -/
structure Superseded (context : Datum) (name current : String) : Prop where
  dwelling : (context.field dwellingField).present? name = none
  topLevel : context.present? name = none
  dimension : (context.field dimensionsField).present? (Text.lower name) =
    (context.field dimensionsField).present? (Text.lower current)

theorem resolve_of_superseded {context : Datum} {name current : String}
    (replaced : standardAliases.lookup name = some (.text current))
    (h : Superseded context name current) :
    resolve standardAliases context current = resolve standardAliases context name := by
  have hreplaces := replaces_of_lookup replaced
  simp only [replaces, Bool.and_eq_true, Bool.not_eq_true', Option.isNone_iff_eq_none] at hreplaces
  obtain ⟨⟨⟨hempty, hnewest⟩, hname⟩, hcurrent⟩ := hreplaces
  have hdirect : direct? context name = none := by
    rw [direct?, h.dwelling, h.topLevel]
    rfl
  have hthrough : throughAlias standardAliases context name = .ok (direct? context current) := by
    rw [throughAlias, replaced]
    exact congrArg Except.ok (if_neg (by simp [hempty]))
  have hnone : throughAlias standardAliases context current = .ok none := by
    rw [throughAlias, hnewest]
    rfl
  have hlast : dimensionOrLiteral? context current = dimensionOrLiteral? context name := by
    rw [dimensionOrLiteral?, dimensionOrLiteral?, h.dimension, numberOfText?_of_isWord hname,
      numberOfText?_of_isWord hcurrent]
  unfold resolve
  split
  · rfl
  · -- the older name goes on to the current one, which is either found or has no alias to go to
    rw [hdirect, hthrough, hnone]
    cases direct? context current with
    | some value => rfl
    | none => exact congrArg Except.ok hlast

theorem resolve_currentName {context : Datum} {name : String}
    (superseded : ∀ current, standardAliases.lookup name = some (.text current) →
      Superseded context name current) :
    resolve standardAliases context (currentName name) = resolve standardAliases context name := by
  unfold currentName
  split
  · rename_i current replaced
    exact resolve_of_superseded replaced (superseded current replaced)
  · rfl

/-- A formula keeps its meaning if its older names are replaced by the current ones, in a context
that knows nothing under the older names and has the same dimensions under both. It is stopped by
the same faults; else it has the same value, the same kind of error or none, and steps with the same
values, operators and results under the current names. -/
theorem evaluate_currentNames (context : Datum) (ts : List Token)
    (superseded : ∀ name ∈ operands ts, ∀ current,
      standardAliases.lookup name = some (.text current) → Superseded context name current) :
    (∀ fault, evaluate (α := α) standardAliases context (ts.map (Token.rename currentName)) =
      .error fault ↔ evaluate (α := α) standardAliases context ts = .error fault) ∧
    ∀ e : Evaluation α, evaluate standardAliases context ts = .ok e →
      ∃ e' : Evaluation α,
        evaluate standardAliases context (ts.map (Token.rename currentName)) = .ok e' ∧
        e'.value = e.value ∧
        e'.error?.map EvaluationError.kind = e.error?.map EvaluationError.kind ∧
        e'.steps.map (fun s => (s.value, s.operator, s.result)) =
          e.steps.map (fun s => (s.value, s.operator, s.result)) ∧
        e'.steps.map Step.name = (e.steps.map Step.name).map currentName := by
  have h := evaluate_rename (α := α) currentName fun name hm =>
    resolve_currentName (superseded name hm)
  rw [h]
  constructor
  · intro fault
    cases (evaluate standardAliases context ts : Except Fault (Evaluation α)) with
    | error other => exact Iff.rfl
    | ok e => exact ⟨nofun, nofun⟩
  · intro e he
    rw [he]
    refine ⟨e.rename currentName, rfl, e.value_rename currentName, ?_, ?_, ?_⟩
    · rw [Evaluation.error?_rename, Option.map_map]
      exact congrArg (e.error?.map ·) (funext (EvaluationError.kind_rename currentName))
    · exact List.map_map
    · rw [List.map_map]
      exact List.map_map

/-- The first name is found in the context under its current name, the second in the dimensions, and
the last is a constant of the table. -/
theorem evaluate_older_names :
    let context : Datum := .record [("breedte", .real 2.0),
      ("dimensions", .record [("lengtedakvlak", .real 3.0), ("daklengte", .real 3.0)])]
    let ts (first second : String) : List Token := [.operand first, .operator .times,
      .operand second, .operator .plus, .operand "5%"]
    let older := ts "BreedteWoning" "LengteDakvlak"
    (∀ name ∈ operands older, ∀ current,
      standardAliases.lookup name = some (.text current) → Superseded context name current) ∧
    ∃ e e' : Evaluation Float, evaluate standardAliases context older = .ok e ∧
      evaluate standardAliases context (ts "breedte" "dakLengte") = .ok e' ∧
      e'.value = e.value ∧ e'.steps.map Step.name = ["breedte", "dakLengte", "5%"] := by
  intro context ts older
  have superseded : ∀ name ∈ operands older, ∀ current,
      standardAliases.lookup name = some (.text current) → Superseded context name current := by
    intro name hm current hl
    have hm' : name ∈ ["BreedteWoning", "LengteDakvlak", "5%"] := hm
    have hwidth : Text.lower "BreedteWoning" = "breedtewoning" := by decide +kernel
    have hlength : Text.lower "LengteDakvlak" = "lengtedakvlak" := by decide +kernel
    have hlength' : Text.lower "dakLengte" = "daklengte" := by decide +kernel
    have hwidth' : Text.lower "breedte" = "breedte" := by decide +kernel
    rcases List.mem_cons.mp hm' with rfl | hm'
    · cases hl
      refine ⟨rfl, rfl, ?_⟩
      rw [hwidth, hwidth']
      rfl
    rcases List.mem_cons.mp hm' with rfl | hm'
    · cases hl
      refine ⟨rfl, rfl, ?_⟩
      rw [hlength, hlength']
      rfl
    · cases List.mem_singleton.mp hm'
      cases hl
  obtain ⟨e, he⟩ : ∃ e : Evaluation Float, evaluate standardAliases context older = .ok e :=
    exists_of_isOk (by decide +kernel)
  obtain ⟨e', he', hvalue, _, _, hnames⟩ := (evaluate_currentNames context older superseded).2 e he
  have hsteps : e.steps.map Step.name = ["BreedteWoning", "LengteDakvlak", "5%"] := by
    have h : (evaluate standardAliases context older : Except Fault (Evaluation Float)).toOption.map
        (fun e => e.steps.map Step.name) = some ["BreedteWoning", "LengteDakvlak", "5%"] := by
      decide +kernel
    rw [he] at h
    exact Option.some.inj h
  refine ⟨superseded, e, e', he, he', hvalue, ?_⟩
  rw [hnames, hsteps]
  rfl

end Renovation.Formula
