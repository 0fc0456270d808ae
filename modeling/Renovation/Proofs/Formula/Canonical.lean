import Mathlib.Data.List.TFAE
import Mathlib.Tactic.TFAE
import Renovation.Proofs.Datum.Readers
import Renovation.Proofs.Formula.Implied
import Renovation.Proofs.Formula.Misplaced
import Renovation.Proofs.Formula.Renaming

set_option autoImplicit false

/-!
# Writing tokens back

The tokens of a stored formula can be stored again and read once more. All of them come back but one
kind: whether a value is empty is asked before its blanks are taken off, so that a value of nothing
but blanks is a variable without a name, and such a variable is dropped when it is read again. The
main statement is that this is the only difference, in the tokens and in what they evaluate to.
-/

namespace Renovation

/-! ## Texts in which something is seen -/

namespace Text

theorem trim_trim (s : String) : trim (trim s) = trim s := by
  rw [trim, trim, String.toList_ofList, trimEnds_trimEnds]

theorem trim_eq_empty_iff {s : String} : trim s = "" ↔ ∀ c ∈ s.toList, isBlank c = true := by
  have hempty : trim s = "" ↔ trimEnds isBlank s.toList = [] := by
    rw [← String.toList_inj, trim, String.toList_ofList]
    rfl
  rw [hempty, List.eq_nil_iff_forall_not_mem]
  constructor
  · intro h c hc
    by_contra hblank
    exact h c (mem_trimEnds hc (Bool.eq_false_iff.mpr hblank))
  · intro h c hc
    have hnil : s.toList.dropWhile isBlank = [] := List.dropWhile_eq_nil_iff.mpr h
    rw [trimEnds, hnil] at hc
    cases hc

theorem isBlank_of_isDigit {c : Char} (h : c.isDigit = true) : isBlank c = false := by
  simp only [Char.isDigit, ge_iff_le, Bool.and_eq_true, decide_eq_true_eq,
    UInt32.le_iff_toNat_le] at h
  have hlow : 48 ≤ c.toNat := h.1
  have hhigh : c.toNat ≤ 57 := h.2
  simp only [isBlank, Bool.or_eq_false_iff, Bool.and_eq_false_iff, decide_eq_false_iff_not,
    beq_eq_false_iff_ne]
  omega

def Visible (cs : List Char) : Prop := ∃ c ∈ cs, isBlank c = false

theorem Visible.trim_ne_empty {s : String} (h : Visible s.toList) : trim s ≠ "" := by
  obtain ⟨c, hc, hblank⟩ := h
  intro hs
  rw [trim_eq_empty_iff.mp hs c hc] at hblank
  cases hblank

theorem Visible.of_subset {cs ds : List Char} (h : Visible cs) (hsub : cs ⊆ ds) : Visible ds := by
  obtain ⟨c, hc, hblank⟩ := h
  exact ⟨c, hsub hc, hblank⟩

end Text

namespace Decimal

theorem visible_digitsOf (n : ℕ) : Text.Visible (digitsOf n) := by
  obtain ⟨c, rest, h⟩ := List.exists_cons_of_ne_nil (digitsOf_ne_nil n)
  have hc : c ∈ digitsOf n := by
    rw [h]
    exact List.mem_cons_self
  exact ⟨c, hc, Text.isBlank_of_isDigit (isDigit_of_mem_digitsOf hc)⟩

theorem visible_text (layout : Layout) (s : Scientific) : Text.Visible (layout.text s).toList := by
  have hdigits := visible_digitsOf s.coefficient
  simp only [Layout.text]
  split
  · exact ⟨'e', by simp [exponentText], by decide⟩
  · split
    · exact hdigits.of_subset (by simp [List.append_assoc])
    · split
      · exact ⟨'.', by simp, by decide⟩
      · exact ⟨'.', by simp, by decide⟩

theorem visible_signed {magnitude : Binary → String}
    (h : ∀ b, Text.Visible (magnitude b).toList) (x : Float) :
    Text.Visible (signed magnitude x).toList := by
  unfold signed
  split
  · exact ⟨'n', by decide, by decide⟩
  · split <;> exact ⟨'n', by decide, by decide⟩
  · rename_i b _
    exact (h b).of_subset (by simp)

end Decimal

/-- Of the values that are no texts none is written with blanks alone. -/
theorem Datum.visible_toText {d : Datum} (h : ∀ s, d ≠ .text s) :
    Text.Visible d.toText.toList := by
  cases d with
  | null => exact ⟨'N', by decide, by decide⟩
  | flag b => cases b <;> exact ⟨'e', by decide, by decide⟩
  | whole n =>
    cases n with
    | ofNat n =>
      change Text.Visible n.repr.toList
      rw [Nat.toList_repr]
      exact Decimal.visible_digitsOf n
    | negSucc n =>
      change Text.Visible ("-" ++ n.succ.repr).toList
      exact ⟨'-', by simp, by decide⟩
  | real x => exact Decimal.visible_signed (fun _ => Decimal.visible_text .plain _) x
  | text s => exact absurd rfl (h s)
  | list items => exact ⟨'[', by simp [toText, shown], by decide⟩
  | record fields => exact ⟨'\x7b', by simp [toText, shown], by decide⟩

namespace Formula

/-! ## Records that are read as a variable without a name -/

namespace Token

theorem read?_eq_operand_iff {d : Datum} {name : String} :
    read? d = some (.operand name) ↔ d.field "type" = .text "variable" ∧
      d.field "value" ≠ .null ∧ d.field "value" ≠ .text "" ∧
      Text.trim (d.field "value").toText = name := by
  rw [read?]
  split
  · simp_all
  · simp_all
  · rename_i hnull hempty
    have hvalue : d.field "value" ≠ .null ∧ d.field "value" ≠ .text "" := ⟨hnull, hempty⟩
    split
    · rename_i kind hkind
      by_cases hop : kind = "operator"
      · simp [hop, hkind]
      · by_cases hvar : kind = "variable"
        · simp [hvar, hkind, hvalue]
        · simp [hop, hvar, hkind]
    · rename_i hkind
      simp only [reduceCtorEq, false_iff]
      exact fun h => hkind _ h.1

/-- A variable whose value is a text of nothing but blanks, though not the empty text. -/
structure Nameless (d : Datum) : Prop where
  type : d.field "type" = .text "variable"
  value : ∃ s, d.field "value" = .text s ∧ s ≠ "" ∧ ∀ c ∈ s.toList, Text.isBlank c = true

theorem read?_eq_nameless_iff {d : Datum} : read? d = some (.operand "") ↔ Nameless d := by
  rw [read?_eq_operand_iff]
  constructor
  · rintro ⟨htype, hnull, hempty, htrim⟩
    obtain ⟨s, hs⟩ : ∃ s, d.field "value" = .text s := by
      by_contra hno
      exact (Datum.visible_toText (not_exists.mp hno)).trim_ne_empty htrim
    rw [hs] at hempty htrim
    exact ⟨htype, s, hs, fun h => hempty (congrArg _ h), Text.trim_eq_empty_iff.mp htrim⟩
  · rintro ⟨htype, s, hs, hne, hblank⟩
    rw [hs]
    exact ⟨htype, nofun, fun h => hne (Datum.text.inj h), Text.trim_eq_empty_iff.mpr hblank⟩

end Token

def HasNameless (raw : Datum) : Prop :=
  ∃ records record, raw = .list records ∧ record ∈ records ∧ Token.Nameless record

theorem mem_tokens_iff {raw : Datum} {t : Token} : t ∈ tokens raw ↔
    ∃ records record, raw = .list records ∧ record ∈ records ∧ Token.read? record = some t := by
  cases raw with
  | list records => simp [tokens]
  | null | flag | whole | real | text | record => simp [tokens]

theorem nameless_mem_tokens_iff {raw : Datum} : Token.operand "" ∈ tokens raw ↔ HasNameless raw := by
  simp only [mem_tokens_iff, Token.read?_eq_nameless_iff, HasNameless]

/-! ## Reading what is written -/

theorem trim_of_mem_tokens {raw : Datum} {name : String} (h : Token.operand name ∈ tokens raw) :
    Text.trim name = name := by
  obtain ⟨_, record, _, _, hread⟩ := mem_tokens_iff.mp h
  obtain ⟨_, _, _, rfl⟩ := Token.read?_eq_operand_iff.mp hread
  exact Text.trim_trim _

theorem read?_stored_of_mem_tokens {raw : Datum} {t : Token} (h : t ∈ tokens raw) :
    Token.read? t.stored = Option.guard (fun t => t ≠ .operand "") t := by
  cases t with
  | operator op =>
    rw [read?_stored_operator (isFactor_or_isSign_of_mem_tokens h)]
    rfl
  | operand name =>
    by_cases hname : name = ""
    · rw [hname]
      rfl
    · have hread : Token.read? (Token.operand name).stored = some (.operand name) :=
        Token.read?_eq_operand_iff.mpr
          ⟨rfl, nofun, fun h => hname (Datum.text.inj h), trim_of_mem_tokens h⟩
      rw [hread, Option.guard, if_pos (by simpa using hname)]

theorem tokens_stored_tokens (raw : Datum) :
    tokens (stored (tokens raw)) = (tokens raw).filter (· ≠ .operand "") := by
  change ((tokens raw).map Token.stored).filterMap Token.read? = _
  rw [List.filterMap_map, ← List.filterMap_eq_filter]
  exact List.filterMap_congr fun t ht => read?_stored_of_mem_tokens ht

/-! ## Evaluating what is written -/

section

variable {names : List String} {ts : List Token}

/-- Where every name is one, each operand of a formula leaves its step. -/
theorem exists_evaluation_of_ones (known : ∀ name ∈ operands ts, name ∈ names) :
    ∃ e : Evaluation Float, evaluate standardAliases (doubles names fun _ => 1.0) ts = .ok e ∧
      e.steps.map Step.name = operands ts := by
  have reads (before after : List Token) (name : String)
      (hts : ts = before ++ .operand name :: after) :
      ReadsAs standardAliases (doubles names fun _ => 1.0) name 1.0 :=
    ⟨_, resolve_doubles (known name (mem_operands_of_stands ⟨after, hts⟩)) _ standardAliases,
      number_real (by decide +kernel)⟩
  have start : Reaches standardAliases (doubles names fun _ => 1.0) (.start : Progress Float) []
      .start := .done _
  have converts : ∀ front name d,
      LookedUp Float standardAliases (doubles names fun _ => 1.0) ts front name →
      resolve standardAliases (doubles names fun _ => 1.0) name = .ok (some d) →
      Converts d := by
    rintro front name d ⟨after, hts, _⟩ hd
    obtain ⟨d', hd', hn⟩ := reads front after name hts
    cases hd.symm.trans hd'
    exact ⟨_, hn, nofun⟩
  obtain ⟨e, he⟩ := start.evaluateFrom_returns (by decide) rfl converts
  refine ⟨e, he, ?_⟩
  rcases evaluateFrom_eq_ok_iff.mp he with
    ⟨q, x, hq, _, rfl⟩ | ⟨before, name, after, q, error, hts, hq, hv, _⟩
  · obtain ⟨new, hnew, hnames⟩ := hq.steps
    rw [hnew, ← hnames]
    rfl
  · have hone := reads before after name hts
    rcases (unusable_of_error hq.sign hv).1 with h | h | ⟨_, x, hx, hz⟩
    · exact absurd h hone.not_missing
    · exact absurd h hone.not_notNumeric
    · rw [hx.unique hone] at hz
      exact absurd hz (by decide +kernel)

end

theorem exists_evaluation_differs {raw : Datum} (h : HasNameless raw) :
    ∃ (aliases : Aliases) (context : Datum),
      (evaluate aliases context (tokens (stored (tokens raw))) : Except Fault (Evaluation Float)) ≠
        evaluate aliases context (tokens raw) := by
  have hmem : "" ∈ operands (tokens raw) :=
    List.mem_filterMap.mpr ⟨_, nameless_mem_tokens_iff.mpr h, rfl⟩
  have hnot : "" ∉ operands (tokens (stored (tokens raw))) := by
    rw [tokens_stored_tokens]
    intro hmem'
    obtain ⟨t, ht, hname⟩ := List.mem_filterMap.mp hmem'
    obtain ⟨_, hne⟩ := List.mem_filter.mp ht
    cases t with
    | operator op => cases hname
    | operand name =>
      cases hname
      exact absurd hne (by decide)
  have hknown : ∀ name ∈ operands (tokens (stored (tokens raw))), name ∈ operands (tokens raw) := by
    rw [tokens_stored_tokens]
    intro name hname
    obtain ⟨t, ht, hname⟩ := List.mem_filterMap.mp hname
    exact List.mem_filterMap.mpr ⟨t, List.mem_of_mem_filter ht, hname⟩
  have hall : ∀ name ∈ operands (tokens raw), name ∈ operands (tokens raw) := fun _ hname => hname
  obtain ⟨e, he, hsteps⟩ := exists_evaluation_of_ones hall
  obtain ⟨e', he', hsteps'⟩ := exists_evaluation_of_ones hknown
  refine ⟨standardAliases, doubles (operands (tokens raw)) fun _ => 1.0, ?_⟩
  rw [he, he']
  intro heq
  rw [Except.ok.inj heq, hsteps] at hsteps'
  exact hnot (hsteps' ▸ hmem)

/-- Every operator of a stored formula is a sign of arithmetic, every name is without blanks at its
ends, and to write the tokens back loses the variables without a name and nothing else. So the
tokens and what they evaluate to survive it exactly if no stored variable is all blanks. -/
theorem tokens_survive_storing (raw : Datum) :
    (∀ op, .operator op ∈ tokens raw →
      op = .plus ∨ op = .minus ∨ op = .times ∨ op = .dividedBy) ∧
    (∀ name, .operand name ∈ tokens raw → Text.trim name = name) ∧
    tokens (stored (tokens raw)) = (tokens raw).filter (· ≠ .operand "") ∧
    [¬ HasNameless raw,
      .operand "" ∉ tokens raw,
      tokens (stored (tokens raw)) = tokens raw,
      ∀ (aliases : Aliases) (context : Datum),
        (evaluate aliases context (tokens (stored (tokens raw))) :
          Except Fault (Evaluation Float)) = evaluate aliases context (tokens raw)].TFAE := by
  refine ⟨fun op hop => ?_, fun _ => trim_of_mem_tokens, tokens_stored_tokens raw, ?_⟩
  · have hsign := isFactor_or_isSign_of_mem_tokens hop
    cases op with
    | other symbol => simp [Operator.isFactor, Operator.isSign] at hsign
    | plus | minus | times | dividedBy => simp
  · tfae_have 1 → 2 := fun h hmem => h (nameless_mem_tokens_iff.mp hmem)
    tfae_have 2 → 3 := fun h => by
      rw [tokens_stored_tokens, List.filter_eq_self]
      intro t ht
      exact decide_eq_true fun heq => h (heq ▸ ht)
    tfae_have 3 → 4 := fun h aliases context => by rw [h]
    tfae_have 4 → 1 := fun h hnameless => by
      obtain ⟨aliases, context, hne⟩ := exists_evaluation_differs hnameless
      exact hne (h aliases context)
    tfae_finish

/-- A variable of one blank is a token, but not the one that it is written back as. -/
theorem blank_variable_is_lost :
    let raw : Datum := .list [.record [("type", .text "variable"), ("value", .text " ")]]
    tokens raw = [.operand ""] ∧ tokens (stored (tokens raw)) = [] ∧
      (evaluate standardAliases (.record []) (tokens raw) : Except Fault (Evaluation Float)) =
        .ok ⟨[], .error (.missing "")⟩ ∧
      (evaluate standardAliases (.record []) (tokens (stored (tokens raw))) :
        Except Fault (Evaluation Float)) = .ok ⟨[], .ok 0⟩ := by
  have hlast : dimensionOrLiteral? (.record []) "" = none := by
    rw [dimensionOrLiteral?, numberOfText?_of_isWord (by decide +kernel)]
    rfl
  have missing : Missing standardAliases (.record []) "" := by
    change Except.ok (dimensionOrLiteral? (.record []) "") = .ok none
    rw [hlast]
  have hvalue : (operandValue standardAliases (.record []) .start "" :
      Except Fault (Except EvaluationError Float)) = .ok (.error (.missing "")) :=
    operandValue_eq_ok_iff.mpr (.inl ⟨missing, rfl⟩)
  refine ⟨rfl, rfl, ?_, rfl⟩
  change evaluateFrom standardAliases (.record []) .start [.operand ""] = _
  rw [evaluateFrom, hvalue]
  rfl

end Formula

end Renovation
