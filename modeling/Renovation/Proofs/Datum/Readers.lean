import Mathlib.Data.List.DropRight
import Mathlib.Data.List.TakeWhile
import Mathlib.Tactic.IntervalCases
import Renovation.Proofs.Decimal.Whole

set_option autoImplicit false

/-!
# Strict and lenient numbers

A stored value is read as a number in two ways. The strict way takes flags, the lenient way does
not; the lenient way takes a decimal comma, and blanks that the strict way does not drop. On all
other values the two come to the same finite number, or both to none.
-/

namespace Renovation

open Decimal Text

/-! ## Trimming -/

namespace Text

variable {p q : Char → Bool} {cs : List Char} {c : Char}

theorem trimEnds_trimEnds (p : Char → Bool) (cs : List Char) :
    trimEnds p (trimEnds p cs) = trimEnds p cs := by
  have hkept : trimEnds p cs <+: cs.dropWhile p := List.rdropWhile_prefix p _
  have hfront : (trimEnds p cs).dropWhile p = trimEnds p cs := by
    rw [List.dropWhile_eq_self_iff]
    intro hl
    rw [hkept.getElem hl]
    exact List.dropWhile_get_zero_not p cs (hl.trans_le hkept.length_le)
  calc trimEnds p (trimEnds p cs) = ((trimEnds p cs).dropWhile p).rdropWhile p := rfl
    _ = ((cs.dropWhile p).rdropWhile p).rdropWhile p := by rw [hfront]; rfl
    _ = trimEnds p cs := List.rdropWhile_idempotent p _

theorem trimEnds_map (f : Char → Char) (p : Char → Bool) (cs : List Char) :
    trimEnds p (cs.map f) = (trimEnds (p ∘ f) cs).map f := by
  simp only [trimEnds, List.dropWhile_map, ← List.map_reverse]

theorem mem_dropWhile (h : c ∈ cs) (hc : p c = false) : c ∈ cs.dropWhile p := by
  rw [← List.takeWhile_append_dropWhile (p := p) (l := cs)] at h
  refine (List.mem_append.mp h).resolve_left fun htake => ?_
  rw [List.mem_takeWhile_imp htake] at hc
  cases hc

theorem mem_trimEnds (h : c ∈ cs) (hc : p c = false) : c ∈ trimEnds p cs :=
  List.mem_reverse.mpr (mem_dropWhile (List.mem_reverse.mpr (mem_dropWhile h hc)) hc)

theorem mem_of_mem_trimEnds (h : c ∈ trimEnds p cs) : c ∈ cs :=
  (List.dropWhile_sublist p).subset
    (List.mem_reverse.mp ((List.dropWhile_sublist p).subset (List.mem_reverse.mp h)))

theorem dropWhile_congr (h : ∀ c ∈ cs, p c = q c) : cs.dropWhile p = cs.dropWhile q := by
  induction cs with
  | nil => rfl
  | cons c rest ih =>
    obtain ⟨hc, hrest⟩ := List.forall_mem_cons.mp h
    rw [List.dropWhile_cons, List.dropWhile_cons, hc, ih hrest]

theorem trimEnds_congr (h : ∀ c ∈ cs, p c = q c) : trimEnds p cs = trimEnds q cs := by
  unfold trimEnds
  rw [dropWhile_congr h, dropWhile_congr fun c hc =>
    h c ((List.dropWhile_sublist q).subset (List.mem_reverse.mp hc))]

end Text

/-! ## Characters that no number has -/

namespace Decimal

/-- The characters that the strict reader never takes, and that are blank or a point elsewhere: the
comma and the information separators. -/
def foreign : List Char := [',', Char.ofNat 28, Char.ofNat 29, Char.ofNat 30, Char.ofNat 31]

variable {c : Char} {cs ds : List Char}

theorem forall_mem_foreign {P : Char → Prop} : (∀ c ∈ foreign, P c) ↔
    P ',' ∧ P (.ofNat 28) ∧ P (.ofNat 29) ∧ P (.ofNat 30) ∧ P (.ofNat 31) := by
  simp only [foreign, List.forall_mem_cons, List.not_mem_nil, false_implies, implies_true, and_true]

theorem mem_plainChars {s : String} (hc : c ∈ foreign) (h : c ∈ s.toList) : c ∈ plainChars s := by
  have hplain : ∀ c ∈ foreign, plainChar c = c ∧ isPlainBlank c = false :=
    forall_mem_foreign.mpr (by decide)
  obtain ⟨hsame, hblank⟩ := hplain c hc
  exact mem_trimEnds (List.mem_map.mpr ⟨c, h, hsame⟩) hblank

theorem mem_dropUnderscores {afterDigit : Bool} (h : dropUnderscores afterDigit cs = some ds)
    (hc : c ∈ cs) (hne : c ≠ '_') : c ∈ ds := by
  fun_induction dropUnderscores afterDigit cs generalizing ds with
  | case1 => cases hc
  | case2 d rest hd ih =>
    exact ih h ((List.mem_cons.mp hc).resolve_left hne)
  | case3 => cases h
  | case4 => cases h
  | case5 afterDigit d rest hd ih =>
    obtain ⟨ds', hds', rfl⟩ := Option.map_eq_some_iff.mp h
    rcases List.mem_cons.mp hc with rfl | hc
    · exact List.mem_cons_self
    · exact List.mem_cons_of_mem _ (ih hds' hc)

theorem mem_splitSign (hc : c ∈ foreign) (h : c ∈ cs) : c ∈ (splitSign cs).2 := by
  have hsign : ∀ c ∈ foreign, c ≠ '-' ∧ c ≠ '+' := forall_mem_foreign.mpr (by decide)
  obtain ⟨hminus, hplus⟩ := hsign c hc
  unfold splitSign
  split
  · exact (List.mem_cons.mp h).resolve_left hminus
  · exact (List.mem_cons.mp h).resolve_left hplus
  · exact h

theorem readExponent?_of_foreign (hc : c ∈ foreign) (h : c ∈ cs) : readExponent? cs = none := by
  have hmark : ∀ c ∈ foreign, c ≠ 'e' ∧ c ≠ 'E' ∧ c.isDigit = false :=
    forall_mem_foreign.mpr (by decide)
  obtain ⟨hlower, hupper, hdigit⟩ := hmark c hc
  cases cs with
  | nil => cases h
  | cons d rest =>
    rw [readExponent?]
    split
    · rename_i hd
      have hrest : c ∈ rest := by
        refine (List.mem_cons.mp h).resolve_left ?_
        rintro rfl
        simp [hlower, hupper] at hd
      have hall : (splitSign rest).2.all Char.isDigit = false :=
        List.all_eq_false.mpr ⟨c, mem_splitSign hc hrest, by simp [hdigit]⟩
      simp [hall]
    · rfl

theorem readMagnitude?_of_foreign (hc : c ∈ foreign) (h : c ∈ cs) : readMagnitude? cs = none := by
  have hword : ∀ c ∈ foreign, c.toLower = c ∧ c ∉ "inf".toList ∧ c ∉ "infinity".toList ∧
      c ∉ "nan".toList ∧ c.isDigit = false ∧ c ≠ '.' := forall_mem_foreign.mpr (by decide)
  obtain ⟨hlower, hinf, hinfinity, hnan, hdigit, hpoint⟩ := hword c hc
  have hne (word : String) (hw : c ∉ word.toList) :
      (String.ofList (cs.map Char.toLower) == word) = false := by
    refine beq_eq_false_iff_ne.mpr fun heq => hw ?_
    rw [← heq, String.toList_ofList]
    exact List.mem_map.mpr ⟨c, h, hlower⟩
  have hrest : c ∈ cs.dropWhile Char.isDigit := mem_dropWhile h hdigit
  rw [readMagnitude?, hne _ hinf, hne _ hinfinity, hne _ hnan]
  simp only [Bool.or_false, Bool.false_eq_true, if_false]
  split
  · rename_i after hafter
    rw [hafter] at hrest
    have hmem := mem_dropWhile ((List.mem_cons.mp hrest).resolve_left hpoint) hdigit
    simp [readExponent?_of_foreign hc hmem]
  · simp [readExponent?_of_foreign hc hrest]

theorem readDouble?_of_foreign {s : String} (hc : c ∈ foreign) (h : c ∈ s.toList) :
    readDouble? s = none := by
  have hne : ∀ c ∈ foreign, c ≠ '_' := forall_mem_foreign.mpr (by decide)
  unfold readDouble?
  cases hdrop : dropUnderscores false (plainChars s) with
  | none => rfl
  | some cs =>
    have hmem := mem_dropUnderscores hdrop (mem_plainChars hc h) (hne c hc)
    have hnone := readMagnitude?_of_foreign hc (mem_splitSign hc hmem)
    simp [hnone]

/-! ## Texts without them -/

theorem isPlainBlank_plainChar (h : c ∉ foreign) : isPlainBlank (plainChar c) = isBlank c := by
  have hspace : c = ' ' ↔ c.toNat = 32 := by
    rw [← Char.toNat_inj]
    rfl
  have hseparator : ¬ (28 ≤ c.toNat ∧ c.toNat ≤ 31) := by
    rintro ⟨hlow, hhigh⟩
    refine h (List.mem_cons_of_mem _ ?_)
    have hof : c = Char.ofNat c.toNat := (Char.ofNat_toNat c).symm
    rw [hof]
    generalize c.toNat = n at hlow hhigh ⊢
    interval_cases n <;> decide
  rw [plainChar]
  split
  · rw [Bool.eq_iff_iff]
    simp only [isPlainBlank, isBlank, Bool.or_eq_true, beq_iff_eq, Bool.and_eq_true,
      decide_eq_true_eq, hspace]
    omega
  · split
    · rename_i hblank
      rw [hblank]
      rfl
    · rename_i hlarge hblank
      rw [Bool.eq_false_iff.mpr hblank]
      split
      · rename_i d hd
        have hlt := digitValue?_lt c d hd
        interval_cases d <;> decide
      · rw [Bool.eq_false_iff]
        simp only [isPlainBlank, Bool.or_eq_true, beq_iff_eq, Bool.and_eq_true,
          decide_eq_true_eq, hspace, ne_eq]
        omega

theorem plainChars_trim {s : String} (h : ∀ c ∈ s.toList, c ∉ foreign) :
    plainChars (trim s) = plainChars s := by
  have hblank : trimEnds isBlank s.toList = trimEnds (isPlainBlank ∘ plainChar) s.toList :=
    trimEnds_congr fun c hc => (isPlainBlank_plainChar (h c hc)).symm
  rw [plainChars, plainChars, trim, String.toList_ofList, trimEnds_map, trimEnds_map, hblank,
    trimEnds_trimEnds]

theorem readDouble?_trim {s : String} (h : ∀ c ∈ s.toList, c ∉ foreign) :
    readDouble? (Datum.withDecimalPoint (trim s)) = readDouble? s := by
  have hpoint : Datum.withDecimalPoint (trim s) = trim s := by
    have hcomma : (trim s).contains ',' = false := by
      rw [String.contains_char_eq, decide_eq_false]
      rw [trim, String.toList_ofList]
      exact fun hmem => h ',' (mem_of_mem_trimEnds hmem) List.mem_cons_self
    rw [Datum.withDecimalPoint, hcomma]
    rfl
  rw [hpoint, readDouble?, readDouble?, plainChars_trim h]

end Decimal

/-! ## The two readers -/

namespace Datum

/-- The lenient reader finds a number. -/
def Lenient (d : Datum) (x : Float) : Prop := d.number = .ok (some x)

/-- The strict reader finds a number, and it is finite. -/
def Strict (d : Datum) (x : Float) : Prop := d.toDouble = .ok x ∧ isFinite x = true

def IsFlag (d : Datum) : Prop := ∃ b, d = flag b

def Plain : Datum → Prop
  | text s => ∀ c ∈ s.toList, c ∉ foreign
  | _ => True

theorem lenient_real_iff {x y : Float} : (real y).Lenient x ↔ y = x ∧ isFinite x = true := by
  rw [Lenient, number, Except.ok.injEq, finite?_eq_some_iff]

theorem not_lenient_flag (b : Bool) (x : Float) : ¬ (flag b).Lenient x := nofun

/-- The strict reader takes flags, and plain values of which the lenient one makes a number. -/
theorem strict_iff {d : Datum} {x : Float} :
    d.Strict x ↔ (∃ b, d = flag b ∧ x = if b then 1.0 else 0.0) ∨ d.Lenient x ∧ d.Plain := by
  unfold Strict Lenient
  cases d with
  | null => exact iff_of_false (by simp [toDouble]) (by simp [number])
  | flag b =>
    have hfinite : isFinite (if b then 1.0 else 0.0) = true := by cases b <;> decide +kernel
    simp only [toDouble, Except.ok.injEq, flag.injEq, exists_eq_left', number, reduceCtorEq,
      false_and, or_false]
    exact ⟨fun h => h.1.symm, fun h => ⟨h.symm, h ▸ hfinite⟩⟩
  | whole n =>
    simp only [reduceCtorEq, false_and, exists_false, false_or, Plain, and_true, toDouble, number]
    cases hn : wholeToDouble n with
    | error fault => exact iff_of_false (fun h => by cases h.1) (fun h => by cases h)
    | ok y =>
      have hfinite := isFinite_of_wholeToDouble hn
      simp only [Except.map, Except.ok.injEq, Option.some.injEq]
      exact ⟨And.left, fun h => ⟨h, h ▸ hfinite⟩⟩
  | real y =>
    simp only [toDouble, Except.ok.injEq, reduceCtorEq, false_and, exists_false, number, Plain,
      and_true, false_or]
    exact finite?_eq_some_iff.symm
  | text s =>
    simp only [reduceCtorEq, false_and, exists_false, false_or, toDouble, number, numberOfText?,
      Except.ok.injEq]
    by_cases hplain : (text s).Plain
    · rw [readDouble?_trim hplain, Option.bind_eq_some_iff]
      cases readDouble? s with
      | none => simp
      | some y => simp [finite?_eq_some_iff, hplain]
    · obtain ⟨c, hc, hforeign⟩ : ∃ c ∈ s.toList, c ∈ foreign := by
        simpa [Plain] using hplain
      rw [readDouble?_of_foreign hforeign hc]
      exact iff_of_false (fun h => by cases h.1) fun h => hplain h.2
  | list | record => exact iff_of_false (by simp [toDouble]) (by simp [number])

theorem Strict.eq_of_lenient {d : Datum} {x y : Float} (hx : d.Strict x) (hy : d.Lenient y) :
    x = y := by
  rcases strict_iff.mp hx with ⟨b, rfl, -⟩ | ⟨hx, -⟩
  · exact absurd hy (not_lenient_flag b y)
  · exact Option.some.inj (Except.ok.inj (hx.symm.trans hy))

theorem strict_returns_iff {d : Datum} :
    (∃ x, d.Strict x) ↔ d.IsFlag ∨ (∃ x, d.Lenient x) ∧ d.Plain := by
  simp only [strict_iff, exists_or, exists_and_right]
  refine or_congr_left ⟨?_, ?_⟩
  · rintro ⟨x, b, hb, -⟩
    exact ⟨b, hb⟩
  · rintro ⟨b, hb⟩
    exact ⟨_, b, hb, rfl⟩

end Datum

end Renovation
