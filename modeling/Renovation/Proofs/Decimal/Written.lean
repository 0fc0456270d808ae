import Mathlib.Data.List.TakeWhile
import Renovation.Decimal.Layout
import Renovation.Decimal.Reading

set_option autoImplicit false

/-!
# Written numbers

The texts of numbers are texts that numbers are read from: a whole number reads as itself, and the
shortest text of a double, which has a point or an exponent, reads as a double.
-/

namespace Renovation.Decimal

open Renovation.Text

/-! ## Characters that are read as they are -/

theorem span_run {p : Char → Bool} {run rest : List Char} (h : ∀ c ∈ run, p c = true)
    (hrest : ∀ c, rest.head? = some c → p c = false) :
    (run ++ rest).takeWhile p = run ∧ (run ++ rest).dropWhile p = rest := by
  rw [List.takeWhile_append_of_pos h, List.dropWhile_append_of_pos h]
  cases rest with
  | nil => exact ⟨List.append_nil run, rfl⟩
  | cons c rest =>
    have hc := hrest c rfl
    rw [List.takeWhile_cons_of_neg (by simp [hc]), List.dropWhile_cons_of_neg (by simp [hc])]
    exact ⟨List.append_nil run, rfl⟩

def isMark (c : Char) : Bool := c.isDigit || c == '-' || c == '+' || c == '.' || c == 'e'

theorem isMark_of_isDigit {c : Char} (h : c.isDigit = true) : isMark c = true := by
  simp [isMark, h]

theorem toNat_of_isMark {c : Char} (h : isMark c = true) :
    (43 ≤ c.toNat ∧ c.toNat ≤ 57) ∨ c = 'e' := by
  simp only [isMark, Char.isDigit, Bool.or_eq_true, Bool.and_eq_true, decide_eq_true_eq,
    beq_iff_eq] at h
  rcases h with (((⟨h, h'⟩ | rfl) | rfl) | rfl) | rfl
  · exact .inl ⟨le_trans (by decide) h, h'⟩
  all_goals decide

theorem trimEnds_of_forall {p : Char → Bool} {cs : List Char} (h : ∀ c ∈ cs, p c = false) :
    trimEnds p cs = cs := by
  have hdrop {ds : List Char} (hds : ∀ c ∈ ds, p c = false) : ds.dropWhile p = ds :=
    List.dropWhile_eq_self_iff.mpr fun hl => by simp [hds _ (List.getElem_mem hl)]
  rw [trimEnds, hdrop h, hdrop fun c hc => h c (List.mem_reverse.mp hc), List.reverse_reverse]

theorem plainChars_of_marks {s : String} (h : ∀ c ∈ s.toList, isMark c = true) :
    plainChars s = s.toList := by
  have hplain : s.toList.map plainChar = s.toList := by
    refine (List.map_congr_left fun c hc => ?_).trans (List.map_id s.toList)
    rw [plainChar, if_pos]
    · rfl
    · rcases toNat_of_isMark (h c hc) with ⟨_, hle⟩ | rfl
      · omega
      · decide
  rw [plainChars, hplain]
  refine trimEnds_of_forall fun c hc => ?_
  rcases toNat_of_isMark (h c hc) with ⟨hlow, -⟩ | rfl
  · have hne : c ≠ ' ' := by
      rintro rfl
      exact absurd hlow (by decide)
    simp only [isPlainBlank, Bool.or_eq_false_iff, beq_eq_false_iff_ne, Bool.and_eq_false_iff,
      decide_eq_false_iff_not]
    exact ⟨hne, .inr (by omega)⟩
  · decide

theorem dropUnderscores_of_marks {cs : List Char} (h : ∀ c ∈ cs, isMark c = true)
    (afterDigit : Bool) : dropUnderscores afterDigit cs = some cs := by
  induction cs generalizing afterDigit with
  | nil => rfl
  | cons c rest ih =>
    obtain ⟨hc, hrest⟩ := List.forall_mem_cons.mp h
    have hne : c ≠ '_' := by
      rintro rfl
      exact absurd hc (by decide)
    rw [dropUnderscores]
    · rw [ih hrest, Option.map_some]
    · exact hne

/-! ## Signs -/

def signText (negative : Bool) : List Char := if negative then ['-'] else []

theorem splitSign_signText (negative : Bool) {c : Char} (hc : c.isDigit = true) (rest : List Char) :
    splitSign (signText negative ++ c :: rest) = (negative, c :: rest) := by
  have hminus : c ≠ '-' := by
    rintro rfl
    exact absurd hc (by decide)
  have hplus : c ≠ '+' := by
    rintro rfl
    exact absurd hc (by decide)
  cases negative with
  | true => rfl
  | false =>
    change splitSign (c :: rest) = _
    unfold splitSign
    split
    · rename_i heq
      exact absurd (List.cons.inj heq).1 hminus
    · rename_i heq
      exact absurd (List.cons.inj heq).1 hplus
    · rfl

theorem isMark_of_mem_signText {negative : Bool} {c : Char} (h : c ∈ signText negative) :
    isMark c = true := by
  cases negative with
  | true =>
    cases List.mem_singleton.mp h
    decide
  | false => cases h

/-! ## Whole numbers -/

theorem digitsValue_digitsOf (n : Nat) : digitsValue (digitsOf n) = n :=
  Nat.ofDigitChars_toDigits (by decide) (by decide)

theorem toList_toString (n : Int) :
    (toString n).toList = signText (n < 0) ++ digitsOf n.natAbs := by
  cases n with
  | ofNat n => exact Nat.toList_repr
  | negSucc n =>
    change ("-" ++ (n + 1).repr).toList = _
    rw [String.toList_append, Nat.toList_repr, signText,
      if_pos (by simp)]
    rfl

theorem readWhole?_toString {n : Int} (h : (digitsOf n.natAbs).length ≤ wholeDigits) :
    readWhole? (toString n) = some n := by
  obtain ⟨c, rest, hdigits⟩ := List.exists_cons_of_ne_nil (digitsOf_ne_nil n.natAbs)
  have hall : ∀ c ∈ digitsOf n.natAbs, c.isDigit = true := fun c hc => isDigit_of_mem_digitsOf hc
  have hmarks : ∀ c ∈ (toString n).toList, isMark c = true := by
    rw [toList_toString]
    intro c hc
    exact (List.mem_append.mp hc).elim isMark_of_mem_signText fun h =>
      isMark_of_isDigit (hall c h)
  have hsplit : splitSign (toString n).toList = (decide (n < 0), digitsOf n.natAbs) := by
    rw [toList_toString]
    have hc : c.isDigit = true := hall c (by rw [hdigits]; exact List.mem_cons_self)
    rw [hdigits]
    exact splitSign_signText _ hc rest
  rw [readWhole?, plainChars_of_marks hmarks, dropUnderscores_of_marks hmarks, Option.bind_eq_bind,
    Option.bind_some, hsplit]
  have hnonempty : (digitsOf n.natAbs).isEmpty = false := by
    rw [hdigits]
    rfl
  have hbound : decide (wholeDigits < (digitsOf n.natAbs).length) = false :=
    decide_eq_false (Nat.not_lt.mpr h)
  simp only [hnonempty, hbound, List.all_eq_true.mpr hall, Bool.not_true, Bool.or_self,
    Bool.false_eq_true, if_false, digitsValue_digitsOf, signedValue, decide_eq_true_eq]
  congr 1
  split <;> omega

/-! ## Doubles -/

/-- The parts of a written magnitude: digits, digits behind a point, and a power of ten. It has a
point or a power. -/
structure Parts (whole fraction power : List Char) : Prop where
  ne_nil : whole ≠ []
  digits : ∀ c ∈ whole, c.isDigit = true
  behindPoint : fraction = [] ∨ ∃ digits, fraction = '.' :: digits ∧ ∀ c ∈ digits, c.isDigit = true
  exponent : power = [] ∨ ∃ sign digits, power = 'e' :: sign :: digits ∧ (sign = '-' ∨ sign = '+') ∧
    digits ≠ [] ∧ ∀ c ∈ digits, c.isDigit = true
  real : fraction ≠ [] ∨ power ≠ []

theorem Parts.marks {whole fraction power : List Char} (h : Parts whole fraction power) :
    ∀ c ∈ whole ++ fraction ++ power, isMark c = true := by
  simp only [List.forall_mem_append]
  refine ⟨⟨fun c hc => isMark_of_isDigit (h.digits c hc), ?_⟩, ?_⟩
  · rcases h.behindPoint with rfl | ⟨digits, rfl, hdigits⟩
    · nofun
    · exact List.forall_mem_cons.mpr ⟨by decide, fun c hc => isMark_of_isDigit (hdigits c hc)⟩
  · rcases h.exponent with rfl | ⟨sign, digits, rfl, hsign, -, hdigits⟩
    · nofun
    · refine List.forall_mem_cons.mpr ⟨by decide, List.forall_mem_cons.mpr ⟨?_, fun c hc =>
        isMark_of_isDigit (hdigits c hc)⟩⟩
      rcases hsign with rfl | rfl <;> decide

theorem forall_mem_zeros (n : Nat) : ∀ c ∈ List.replicate n '0', c.isDigit = true := by
  intro c hc
  rw [List.eq_of_mem_replicate hc]
  decide

theorem power_exponentText (exponent : Int) : ∃ sign digits,
    (exponentText exponent).toList = 'e' :: sign :: digits ∧ (sign = '-' ∨ sign = '+') ∧
      digits ≠ [] ∧ ∀ c ∈ digits, c.isDigit = true := by
  refine ⟨_, _, String.toList_ofList, ?_, ?_, ?_⟩
  · split
    · exact .inl rfl
    · exact .inr rfl
  · exact List.append_ne_nil_of_right_ne_nil _ (digitsOf_ne_nil _)
  · exact List.forall_mem_append.mpr ⟨forall_mem_zeros _, fun c hc => isDigit_of_mem_digitsOf hc⟩

theorem exists_textParts (s : Scientific) : ∃ whole fraction power, Parts whole fraction power ∧
    (Layout.plain.text s).toList = whole ++ fraction ++ power := by
  have hne : digitsOf s.coefficient ≠ [] := digitsOf_ne_nil _
  have hdigits : ∀ c ∈ digitsOf s.coefficient, c.isDigit = true :=
    fun c hc => isDigit_of_mem_digitsOf hc
  simp only [Layout.text]
  generalize digitsOf s.coefficient = ds at *
  generalize s.exponent + ds.length - 1 = leading
  have htake (n : Nat) : ∀ c ∈ ds.take n, c.isDigit = true :=
    fun c hc => hdigits c (List.mem_of_mem_take hc)
  have hdrop (n : Nat) : ∀ c ∈ ds.drop n, c.isDigit = true :=
    fun c hc => hdigits c (List.mem_of_mem_drop hc)
  have hfirst {n : Nat} (hn : n ≠ 0) : ds.take n ≠ [] := by simp [List.take_eq_nil_iff, hn, hne]
  split
  · obtain ⟨sign, power, htext, hpower⟩ := power_exponentText leading
    refine ⟨ds.take 1, if ds.length ≤ 1 then [] else '.' :: ds.drop 1, 'e' :: sign :: power,
      ⟨hfirst (by decide), htake 1, ?_, .inr ⟨sign, power, rfl, hpower⟩, .inr (by simp)⟩, ?_⟩
    · split
      · exact .inl rfl
      · exact .inr ⟨_, rfl, hdrop 1⟩
    · rw [String.toList_append, htext, String.toList_ofList]
  · split
    · refine ⟨ds ++ List.replicate s.exponent.toNat '0', ['.', '0'], [],
        ⟨by simp [hne], List.forall_mem_append.mpr ⟨hdigits, forall_mem_zeros _⟩,
          .inr ⟨['0'], rfl, List.forall_mem_singleton.mpr rfl⟩, .inl rfl, .inl (by simp)⟩, ?_⟩
      simp [Layout.plain]
    · split
      · refine ⟨ds.take (leading + 1).toNat, '.' :: ds.drop (leading + 1).toNat, [],
          ⟨hfirst (by omega), htake _, .inr ⟨_, rfl, hdrop _⟩, .inl rfl, .inl (by simp)⟩, ?_⟩
        rw [String.toList_ofList, List.append_nil]
      · refine ⟨['0'], '.' :: (List.replicate (-leading - 1).toNat '0' ++ ds), [],
          ⟨by simp, List.forall_mem_singleton.mpr rfl, .inr ⟨_, rfl, ?_⟩, .inl rfl,
            .inl (by simp)⟩, ?_⟩
        · exact List.forall_mem_append.mpr ⟨forall_mem_zeros _, hdigits⟩
        · rw [String.toList_ofList, List.append_nil]
          rfl

theorem readExponent?_isSome {whole fraction power : List Char} (h : Parts whole fraction power) :
    ∃ n, readExponent? power = some n := by
  rcases h.exponent with rfl | ⟨sign, digits, rfl, hsign, hne, hdigits⟩
  · exact ⟨0, rfl⟩
  · have hsplit : ∃ negative, splitSign (sign :: digits) = (negative, digits) := by
      rcases hsign with rfl | rfl
      · exact ⟨true, rfl⟩
      · exact ⟨false, rfl⟩
    obtain ⟨negative, hsplit⟩ := hsplit
    have hempty : digits.isEmpty = false := by simpa using hne
    refine ⟨signedValue negative (digitsValue digits), ?_⟩
    simp [readExponent?, hsplit, hempty, List.all_eq_true.mpr hdigits]

theorem readMagnitude?_isSome {whole fraction power : List Char} (h : Parts whole fraction power) :
    ∃ n, readMagnitude? (whole ++ fraction ++ power) = some n := by
  obtain ⟨exponent, hexponent⟩ := readExponent?_isSome h
  obtain ⟨first, others, hwhole⟩ := List.exists_cons_of_ne_nil h.ne_nil
  have hpower : ∀ c, power.head? = some c → c.isDigit = false := by
    rcases h.exponent with rfl | ⟨sign, digits, rfl, -⟩
    · nofun
    · rintro _ ⟨⟩
      decide
  have hrest : ∀ c, (fraction ++ power).head? = some c → c.isDigit = false := by
    rcases h.behindPoint with rfl | ⟨digits, rfl, -⟩
    · exact hpower
    · rintro _ ⟨⟩
      decide
  obtain ⟨htake, hdrop⟩ := span_run h.digits hrest
  have hword (word : String) (hletter : word.toList.head?.any Char.isDigit = false) :
      (String.ofList ((whole ++ fraction ++ power).map Char.toLower) == word) = false := by
    refine beq_false_of_ne fun heq => ?_
    have hfirst : first.isDigit = true := h.digits first (by rw [hwhole]; exact List.mem_cons_self)
    have hlower : first.toLower.isDigit = true := by
      have hsame : first.toLower = first := by
        simp only [Char.isDigit, Bool.and_eq_true, decide_eq_true_eq] at hfirst
        exact dif_neg fun hupper => absurd (UInt32.le_trans hupper.1 hfirst.2) (by decide)
      rwa [hsame]
    rw [← heq, String.toList_ofList, hwhole] at hletter
    exact Bool.false_ne_true (hletter.symm.trans hlower)
  unfold readMagnitude?
  dsimp only
  rw [hword "inf" rfl, hword "infinity" rfl, hword "nan" rfl]
  simp only [Bool.or_self, Bool.false_eq_true, if_false, List.append_assoc, htake, hdrop]
  have hempty : whole.isEmpty = false := by rw [hwhole]; rfl
  rcases h.behindPoint with rfl | ⟨digits, rfl, hdigits⟩
  · rcases h.exponent with rfl | ⟨sign, ds, rfl, -⟩ <;>
      simp [hempty, hexponent]
  · obtain ⟨hfraction, hbehind⟩ := span_run hdigits hpower
    simp [hempty, hexponent, hfraction, hbehind]

theorem exists_parts_shortestText {x : Float} {b : Binary} (h : expand x = .finite b) :
    ∃ whole fraction power, Parts whole fraction power ∧
      (shortestText .plain x).toList = signText b.negative ++ (whole ++ fraction ++ power) := by
  obtain ⟨whole, fraction, power, hparts, htext⟩ :=
    exists_textParts (if b.mantissa == 0 then ⟨0, 0⟩ else b.shortest)
  refine ⟨whole, fraction, power, hparts, ?_⟩
  rw [shortestText, signed, h]
  dsimp only
  rw [String.toList_append, htext]
  cases b.negative <;> rfl

theorem readDouble?_shortestText {x : Float} {b : Binary} (h : expand x = .finite b) :
    ∃ y, readDouble? (shortestText .plain x) = some y := by
  obtain ⟨whole, fraction, power, hparts, htext⟩ := exists_parts_shortestText h
  obtain ⟨n, hn⟩ := readMagnitude?_isSome hparts
  obtain ⟨first, others, hwhole⟩ := List.exists_cons_of_ne_nil hparts.ne_nil
  have hmarks : ∀ c ∈ (shortestText .plain x).toList, isMark c = true := by
    rw [htext]
    exact List.forall_mem_append.mpr ⟨fun c hc => isMark_of_mem_signText hc, hparts.marks⟩
  have hsplit : splitSign (shortestText .plain x).toList =
      (b.negative, whole ++ fraction ++ power) := by
    have hfirst : first.isDigit = true :=
      hparts.digits first (by rw [hwhole]; exact List.mem_cons_self)
    rw [htext, hwhole]
    exact splitSign_signText _ hfirst _
  rw [readDouble?, plainChars_of_marks hmarks, dropUnderscores_of_marks hmarks,
    Option.bind_eq_bind, Option.bind_some, hsplit]
  dsimp only
  rw [hn]
  exact ⟨_, rfl⟩

end Renovation.Decimal
