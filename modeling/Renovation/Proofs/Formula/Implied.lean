import Mathlib.Data.List.Chain
import Renovation.Proofs.Formula.Replay

set_option autoImplicit false

/-!
# Implied operators

Two operands in a row are joined by the last operator seen. `explicit` writes that operator out, in
a list of tokens as in a list of stored records, some of which may be no token. The main statement
is that an evaluation cannot tell the two forms apart: it has the same steps and the same end, be it
a value, an error or a fault. The explicit form needs no such rule, since no two of its operands are
neighbours.
-/

namespace Renovation.Formula

open Outcome

/-- The operator that is implied between these tokens and the next one: the last operator seen, if
an operand stands directly behind an operand. -/
def implied? (before : List Token) (next : Token) : Option Operator :=
  match before.getLast?, next with
  | some (.operand _), .operand _ => some (lastOperator before)
  | _, _ => none

section

variable {β : Type} (read : β → Option Token) (write : Operator → β)

/-- The items behind these tokens with every implied operator written out in front of its operand.
What is no token stays where it is. -/
def explicitFrom (before : List Token) : List β → List β
  | [] => []
  | item :: rest =>
    match read item with
    | none => item :: explicitFrom before rest
    | some t =>
      (implied? before t).toList.map write ++ item :: explicitFrom (before ++ [t]) rest

theorem sublist_explicitFrom (before : List Token) (items : List β) :
    items.Sublist (explicitFrom read write before items) := by
  induction items generalizing before with
  | nil => exact .slnil
  | cons item rest ih =>
    rw [explicitFrom]
    cases read item with
    | none => exact (ih before).cons_cons item
    | some t => exact ((ih _).cons_cons item).trans (List.sublist_append_right _ _)

end

def explicit (ts : List Token) : List Token := explicitFrom some .operator [] ts

def explicitRecords (records : List Datum) : List Datum :=
  explicitFrom Token.read? (fun op => (Token.operator op).stored) [] records

/-! ## Records and tokens -/

theorem mem_operators_or_plus (ts : List Token) :
    Token.operator (lastOperator ts) ∈ ts ∨ lastOperator ts = .plus := by
  rw [lastOperator]
  cases h : (ts.filterMap Token.operator?).getLast? with
  | none => exact .inr rfl
  | some op =>
    obtain ⟨t, ht, hop⟩ := List.mem_filterMap.mp (List.mem_of_getLast? h)
    cases t with
    | operand name => cases hop
    | operator op' =>
      cases hop
      exact .inl ht

theorem filterMap_explicitFrom {β : Type} {read : β → Option Token} {write : Operator → β}
    (plus : read (write .plus) = some (.operator .plus))
    (kept : ∀ item op, read item = some (.operator op) → read (write op) = some (.operator op))
    {before : List Token}
    (seen : ∀ op, Token.operator op ∈ before → read (write op) = some (.operator op))
    (items : List β) :
    (explicitFrom read write before items).filterMap read =
      explicitFrom some .operator before (items.filterMap read) := by
  induction items generalizing before with
  | nil => rfl
  | cons item rest ih =>
    cases hitem : read item with
    | none => simp [explicitFrom, hitem, ih seen]
    | some t =>
      have hseen : ∀ op, Token.operator op ∈ before ++ [t] →
          read (write op) = some (.operator op) := by
        intro op hop
        rcases List.mem_append.mp hop with hop | hop
        · exact seen op hop
        · exact kept item op (by rw [hitem, List.mem_singleton.mp hop])
      have hwritten : ((implied? before t).toList.map write).filterMap read =
          (implied? before t).toList.map .operator := by
        have hlast : read (write (lastOperator before)) =
            some (.operator (lastOperator before)) := by
          rcases mem_operators_or_plus before with h | h
          · exact seen _ h
          · rw [h, plus]
        unfold implied?
        split <;> simp [hlast]
      simp [explicitFrom, hitem, hwritten, ih hseen]

theorem read?_stored_operator {op : Operator} (h : op.isFactor = true ∨ op.isSign = true) :
    Token.read? (Token.operator op).stored = some (.operator op) := by
  cases op with
  | plus | minus | times | dividedBy => decide +kernel
  | other symbol => simp [Operator.isFactor, Operator.isSign] at h

theorem tokens_explicitRecords (records : List Datum) :
    tokens (.list (explicitRecords records)) = explicit (tokens (.list records)) := by
  refine filterMap_explicitFrom (read?_stored_operator (.inr rfl)) ?_ (by simp) records
  intro record op hop
  obtain ⟨symbol, hsymbol⟩ := exists_spelled?_of_read? hop
  exact read?_stored_operator (isFactor_or_isSign_of_spelled? hsymbol)

/-! ## No two operands in a row -/

def NoNeighbours (ts : List Token) : Prop :=
  ts.IsChain fun s t => s.operand? = none ∨ t.operand? = none

theorem noNeighbours_explicitFrom (before ts : List Token) :
    NoNeighbours (explicitFrom some .operator before ts) ∧
      ∀ name, before.getLast? = some (.operand name) →
        ∀ t ∈ (explicitFrom some .operator before ts).head?, t.operand? = none := by
  induction ts generalizing before with
  | nil => exact ⟨.nil, by simp [explicitFrom]⟩
  | cons t rest ih =>
    obtain ⟨hrest, hhead⟩ := ih (before ++ [t])
    have htail : NoNeighbours (t :: explicitFrom some .operator (before ++ [t]) rest) := by
      refine List.isChain_cons.mpr ⟨?_, hrest⟩
      intro next hnext
      cases t with
      | operator op => exact .inl rfl
      | operand name => exact .inr (hhead name List.getLast?_concat next hnext)
    simp only [explicitFrom]
    unfold implied?
    split
    · exact ⟨List.isChain_cons.mpr ⟨fun _ _ => .inl rfl, htail⟩, by simp [Token.operand?]⟩
    · rename_i next _ _ hneighbours
      refine ⟨htail, fun name hname => ?_⟩
      cases next with
      | operator op => simp [Token.operand?]
      | operand name' => exact absurd rfl (hneighbours name name' hname)

/-! ## Evaluation -/

variable {α : Type} [Number α] {aliases : Aliases} {context : Datum}

/-- Writing out the last operator behind an operand does what joining the next operand would do. -/
theorem evaluateFrom_implied {p : Progress α} {x : α} (h : p.items.getLast? = some (.value x))
    (name : String) (rest : List Token) :
    evaluateFrom aliases context p (.operator p.lastOperator :: .operand name :: rest) =
      evaluateFrom aliases context p (.operand name :: rest) := by
  have hjoined : (p.operator p.lastOperator).joined = p.joined := by
    rw [Progress.joined_of_value h]
    exact Progress.joined_of_operator List.getLast?_concat
  have hvalue : operandValue aliases context (p.operator p.lastOperator) name =
      operandValue aliases context p name := by
    simp only [operandValue, Progress.dividesNext, hjoined]
    rfl
  have hoperand (y : α) : (p.operator p.lastOperator).operand name y = p.operand name y := by
    simp only [Progress.operand, Progress.sign, hjoined]
    rfl
  simp only [evaluateFrom, hvalue, hoperand]
  rfl

/-- What an evaluation has to know to put an implied operator in. -/
structure Watches (before : List Token) (p : Progress α) : Prop where
  lastOperator : p.lastOperator = lastOperator before
  value : ∀ name, before.getLast? = some (.operand name) →
    ∃ x, p.items.getLast? = some (.value x)

omit [Number α] in
theorem Watches.operator {before : List Token} {p : Progress α} (op : Operator) :
    Watches (before ++ [.operator op]) (p.operator op) where
  lastOperator := (lastOperator_concat before (.operator op)).symm
  value := by simp

theorem Watches.operand {before : List Token} {p p' : Progress α} {name : String} {x : α}
    (h : Watches before p) (hp : p.operand name x = .ok p') :
    Watches (before ++ [.operand name]) p' := by
  obtain ⟨result, -, rfl⟩ := operand_eq_ok hp
  refine ⟨?_, fun _ _ => ⟨x, List.getLast?_concat⟩⟩
  rw [lastOperator_concat]
  exact h.lastOperator

theorem evaluateFrom_explicitFrom {before : List Token} {p : Progress α} (h : Watches before p)
    (ts : List Token) :
    evaluateFrom aliases context p (explicitFrom some .operator before ts) =
      evaluateFrom aliases context p ts := by
  induction ts generalizing before p with
  | nil => rfl
  | cons t rest ih =>
    cases t with
    | operator op =>
      have hnone : implied? before (.operator op) = none := by
        unfold implied?
        split <;> simp_all
      simp only [explicitFrom, hnone]
      exact ih (.operator op)
    | operand name =>
      -- behind this operand both forms go on from the same progress
      have hrest : evaluateFrom aliases context p
          (.operand name :: explicitFrom some .operator (before ++ [.operand name]) rest) =
            evaluateFrom aliases context p (.operand name :: rest) := by
        simp only [evaluateFrom]
        congr 1
        funext value
        cases value with
        | error error => rfl
        | ok x =>
          change (p.operand name x >>= fun p' => evaluateFrom aliases context p' _) =
            p.operand name x >>= fun p' => evaluateFrom aliases context p' rest
          cases hp : p.operand name x with
          | error fault => rfl
          | ok p' => exact ih (h.operand hp)
      simp only [explicitFrom]
      unfold implied?
      split
      · rename_i front _ hfront _
        obtain ⟨x, hx⟩ := h.value _ hfront
        rw [← h.lastOperator]
        exact (evaluateFrom_implied hx name _).trans hrest
      · exact hrest

/-- A stored formula and its explicit form are evaluated alike, whatever the context and whatever
stands between the operands: the steps are the same, and so is the value, the error or the fault.
The explicit form only adds records, and leaves no operator to be implied. -/
theorem evaluate_explicitRecords (aliases : Aliases) (context : Datum) (records : List Datum) :
    (evaluate aliases context (tokens (.list (explicitRecords records))) :
        Except Fault (Evaluation α)) = evaluate aliases context (tokens (.list records)) ∧
      tokens (.list (explicitRecords records)) = explicit (tokens (.list records)) ∧
      records.Sublist (explicitRecords records) ∧
      NoNeighbours (tokens (.list (explicitRecords records))) := by
  rw [tokens_explicitRecords]
  refine ⟨?_, rfl, sublist_explicitFrom _ _ _ _, (noNeighbours_explicitFrom [] _).1⟩
  exact evaluateFrom_explicitFrom ⟨rfl, by simp⟩ (tokens (.list records))

example : explicit [.operand "a", .operator .dividedBy, .operand "b", .operand "c"] =
    [.operand "a", .operator .dividedBy, .operand "b", .operator .dividedBy, .operand "c"] := rfl

end Renovation.Formula
