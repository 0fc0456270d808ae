import Mathlib.Data.List.Basic
import Renovation.Proofs.Decimal.Units
import Renovation.Report.Amount

set_option autoImplicit false

/-!
# Dutch numbers

A finite number is written as a sign, groups of three digits and a fraction, and the two marks of a
country go between them. Since no digit is a mark, marks can be replaced by others and taken out
again, so the Dutch text holds all that the plain one holds.
-/

namespace Renovation.Report

open Decimal

structure Numeral where
  negative : Bool
  leading : List Char
  groups : List (List Char)
  fraction : List Char

def replaced (old : Char) (new text : List Char) : List Char :=
  text.flatMap fun c => if c = old then new else [c]

structure InThrees (leading : List Char) (groups : List (List Char)) : Prop where
  leading : 1 ≤ leading.length ∧ leading.length ≤ 3
  groups : ∀ group ∈ groups, group.length = 3

namespace Numeral

structure WellFormed (n : Numeral) (places : ℕ) : Prop where
  whole : InThrees n.leading n.groups
  fraction : n.fraction.length = places
  digits : ∀ c ∈ n.leading ++ n.groups.flatten ++ n.fraction, c.isDigit = true

/-- The numeral with a mark before each group but the first and one before the fraction. -/
def written (n : Numeral) (group point : List Char) : List Char :=
  (if n.negative then ['-'] else []) ++ n.leading ++ n.groups.flatMap (group ++ ·) ++
    (if n.fraction = [] then [] else point ++ n.fraction)

def text (n : Numeral) (marks : Marks) : List Char := n.written marks.group.toList [marks.point]

end Numeral

/-! ## Groups of three digits -/

theorem exists_groups : (backward : List Char) → backward ≠ [] →
    ∃ leading groups, InThrees leading groups ∧ backward.reverse = leading ++ groups.flatten ∧
      ∀ mark, (groupReversed mark backward).reverse = leading ++ groups.flatMap (mark :: ·)
  | [], h => absurd rfl h
  | [a], _ => ⟨[a], [], ⟨by simp, by simp⟩, by simp [groupReversed]⟩
  | [a, b], _ => ⟨[b, a], [], ⟨by simp, by simp⟩, by simp [groupReversed]⟩
  | [a, b, c], _ => ⟨[c, b, a], [], ⟨by simp, by simp⟩, by simp [groupReversed]⟩
  | a :: b :: c :: d :: rest, _ => by
    obtain ⟨leading, groups, hthrees, hflat, hmarks⟩ :=
      exists_groups (d :: rest) (List.cons_ne_nil d rest)
    refine ⟨leading, groups ++ [[c, b, a]], ⟨hthrees.leading, ?_⟩, ?_, fun mark => ?_⟩
    · simpa [or_imp, forall_and] using hthrees.groups
    · calc (a :: b :: c :: d :: rest).reverse
        _ = (d :: rest).reverse ++ [c, b, a] := by simp
        _ = leading ++ (groups ++ [[c, b, a]]).flatten := by simp [hflat]
    · calc (groupReversed mark (a :: b :: c :: d :: rest)).reverse
        _ = (groupReversed mark (d :: rest)).reverse ++ [mark, c, b, a] := by simp [groupReversed]
        _ = leading ++ (groups ++ [[c, b, a]]).flatMap (mark :: ·) := by simp [hmarks]

theorem exists_groupDigits {digits : List Char} (h : digits ≠ []) :
    ∃ leading groups, InThrees leading groups ∧ digits = leading ++ groups.flatten ∧
      ∀ marks : Marks,
        marks.groupDigits digits = leading ++ groups.flatMap (marks.group.toList ++ ·) := by
  obtain ⟨leading, groups, hthrees, hflat, hmarks⟩ := exists_groups digits.reverse (by simpa using h)
  rw [List.reverse_reverse] at hflat
  refine ⟨leading, groups, hthrees, hflat, fun marks => ?_⟩
  obtain ⟨group, point⟩ := marks
  cases group with
  | none => simp [Marks.groupDigits, hflat, List.flatMap_def]
  | some mark => simp [Marks.groupDigits, hmarks]

theorem exists_placed (negative : Bool) (places units : ℕ) :
    ∃ n : Numeral, n.WellFormed places ∧ ∀ marks : Marks,
      n.text marks = (if negative then ['-'] else []) ++ marks.placed places units := by
  let digits := List.replicate (places + 1 - (digitsOf units).length) '0' ++ digitsOf units
  have hlength : places + 1 ≤ digits.length := by
    simp only [digits, List.length_append, List.length_replicate]
    omega
  have hdigits : ∀ c ∈ digits, c.isDigit = true := by
    intro c hc
    rcases List.mem_append.mp hc with hzero | hdigit
    · rw [List.eq_of_mem_replicate hzero]
      decide
    · exact isDigit_of_mem_digitsOf hdigit
  have hwhole : digits.take (digits.length - places) ≠ [] := by
    rw [ne_eq, ← List.length_eq_zero_iff, List.length_take]
    omega
  have hfraction : (digits.drop (digits.length - places)).length = places := by
    rw [List.length_drop]
    omega
  obtain ⟨leading, groups, hthrees, hflat, hmarks⟩ := exists_groupDigits hwhole
  refine ⟨⟨negative, leading, groups, digits.drop (digits.length - places)⟩,
    ⟨hthrees, hfraction, ?_⟩, fun marks => ?_⟩
  · rw [← hflat, List.take_append_drop]
    exact hdigits
  · have hnone : digits.drop (digits.length - places) = [] ↔ places = 0 := by
      rw [← List.length_eq_zero_iff, hfraction]
    simp only [Numeral.text, Numeral.written, Marks.placed, beq_iff_eq, hnone]
    rw [hmarks]
    simp [digits]

theorem exists_numeral {x : Float} (h : Datum.isFinite x = true) (places : ℕ) :
    ∃ n : Numeral, n.WellFormed places ∧
      ∀ marks, (fixedText marks places x).toList = n.text marks := by
  obtain ⟨b, hb⟩ := isFinite_eq_true_iff.mp h
  obtain ⟨n, hformed, hn⟩ :=
    exists_placed b.negative places (roundHalfEven (b.num * tenTo places) b.den)
  refine ⟨n, hformed, fun marks => ?_⟩
  rw [hn, fixedText, signed, hb]
  dsimp only
  split <;> simp

/-! ## Marks for marks -/

theorem replaced_append (old : Char) (new front rest : List Char) :
    replaced old new (front ++ rest) = replaced old new front ++ replaced old new rest := by
  simp [replaced]

theorem replaced_of_not_mem {old : Char} {text : List Char} (h : old ∉ text) (new : List Char) :
    replaced old new text = text := by
  induction text with
  | nil => rfl
  | cons c rest ih =>
    rw [List.mem_cons, not_or] at h
    have hc : c ≠ old := fun heq => h.1 heq.symm
    simpa [replaced, hc] using ih h.2

theorem replaced_groups {old : Char} {groups : List (List Char)} (h : old ∉ groups.flatten)
    (new mark : List Char) :
    replaced old new (groups.flatMap (mark ++ ·)) =
      groups.flatMap (replaced old new mark ++ ·) := by
  induction groups with
  | nil => rfl
  | cons group rest ih =>
    rw [List.flatten_cons, List.mem_append, not_or] at h
    simp only [List.flatMap_cons, replaced_append, replaced_of_not_mem h.1, ih h.2]

theorem Numeral.WellFormed.replaced_written {n : Numeral} {places : ℕ} (h : n.WellFormed places)
    {old : Char} (hdigit : old.isDigit = false) (hsign : old ≠ '-') (new group point : List Char) :
    replaced old new (n.written group point) =
      n.written (replaced old new group) (replaced old new point) := by
  have hnot : old ∉ n.leading ++ n.groups.flatten ++ n.fraction := fun hmem =>
    absurd (h.digits old hmem) (by simp [hdigit])
  rw [List.mem_append, List.mem_append, not_or, not_or] at hnot
  obtain ⟨⟨hleading, hgroups⟩, hfraction⟩ := hnot
  have hnegative : old ∉ if n.negative then ['-'] else [] := by
    split <;> simp [hsign]
  simp only [written, replaced_append, replaced_of_not_mem hnegative,
    replaced_of_not_mem hleading, replaced_groups hgroups]
  cases hnone : n.fraction with
  | nil => rfl
  | cons c rest =>
    rw [hnone] at hfraction
    simp [replaced_append, replaced_of_not_mem hfraction]

def withoutDutchMarks (text : List Char) : List Char := replaced ',' ['.'] (replaced '.' [] text)

/-- Commas and points for each other, by way of a letter that no number has. -/
def swappedMarks (text : List Char) : List Char :=
  replaced 'X' ['.'] (replaced '.' [','] (replaced ',' ['X'] text))

theorem withoutDutchMarks_dutch {x : Float} (h : Datum.isFinite x = true) (places : ℕ) :
    withoutDutchMarks (dutch places x).toList = (fixedText .plain places x).toList := by
  obtain ⟨n, hformed, hn⟩ := exists_numeral h places
  rw [dutch, hn, hn, withoutDutchMarks, Numeral.text,
    hformed.replaced_written (by decide) (by decide),
    hformed.replaced_written (by decide) (by decide)]
  rfl

theorem swappedMarks_english {x : Float} (h : Datum.isFinite x = true) (places : ℕ) :
    swappedMarks (fixedText .english places x).toList = (dutch places x).toList := by
  obtain ⟨n, hformed, hn⟩ := exists_numeral h places
  rw [dutch, hn, hn, swappedMarks, Numeral.text,
    hformed.replaced_written (by decide) (by decide),
    hformed.replaced_written (by decide) (by decide),
    hformed.replaced_written (by decide) (by decide)]
  rfl

theorem formatDutch_eq_ok_iff {places : ℤ} {x : Float} {text : String} :
    formatDutch places x = .ok text ↔
      (0 ≤ places ∧ places < Decimal.twoTo 31) ∧ dutch places.toNat x = text := by
  unfold formatDutch placesOf
  split
  · rename_i h
    exact iff_of_false nofun fun hplaces => absurd hplaces.1.1 (not_le.mpr h)
  split
  · rename_i h
    exact iff_of_false nofun fun hplaces => by omega
  · rename_i hnonneg hfew
    have hplaces : 0 ≤ places ∧ places < Decimal.twoTo 31 := by omega
    rw [and_iff_right hplaces]
    change (Except.ok (dutch places.toNat x) : Except Fault String) = .ok text ↔ _
    rw [Except.ok.injEq]

/-- A finite number is written with any count of places from zero to below `2 ^ 31`: digits in groups
of three with points between them and, where there are places, a comma and as many digits as there
are places. The text is the English one with the marks swapped, and without its marks it is the plain
text, so numbers that are written differently are written differently in Dutch. -/
theorem formatDutch_loses_nothing {x : Float} (h : Datum.isFinite x = true) (places : ℤ) :
    ((∃ text, formatDutch places x = .ok text) ↔ 0 ≤ places ∧ places < Decimal.twoTo 31) ∧
    ∀ text, formatDutch places x = .ok text →
      (∃ n : Numeral, n.WellFormed places.toNat ∧ text.toList = n.written ['.'] [',']) ∧
      withoutDutchMarks text.toList = (fixedText .plain places.toNat x).toList ∧
      swappedMarks (fixedText .english places.toNat x).toList = text.toList ∧
      ∀ (y : Float) (others : ℤ), Datum.isFinite y = true → formatDutch others y = .ok text →
        fixedText .plain places.toNat x = fixedText .plain others.toNat y := by
  simp only [formatDutch_eq_ok_iff]
  refine ⟨⟨fun ⟨_, hplaces, _⟩ => hplaces, fun hplaces => ⟨_, hplaces, rfl⟩⟩, ?_⟩
  rintro _ ⟨-, rfl⟩
  refine ⟨?_, withoutDutchMarks_dutch h _, swappedMarks_english h _, ?_⟩
  · obtain ⟨n, hformed, hn⟩ := exists_numeral h places.toNat
    exact ⟨n, hformed, hn .dutch⟩
  · rintro y others hy ⟨-, heq⟩
    apply String.toList_inj.mp
    rw [← withoutDutchMarks_dutch h, ← withoutDutchMarks_dutch hy, heq]

theorem formatDutch_loses_nothing_of_thousands :
    Datum.isFinite 1234567.5 = true ∧ formatDutch 2 1234567.5 = .ok "1.234.567,50" ∧
      withoutDutchMarks "1.234.567,50".toList = (fixedText .plain 2 1234567.5).toList := by
  have hfinite : Datum.isFinite 1234567.5 = true := by decide +kernel
  have htext : formatDutch 2 1234567.5 = .ok "1.234.567,50" :=
    formatDutch_eq_ok_iff.mpr ⟨by decide, by decide +kernel⟩
  exact ⟨hfinite, htext, ((formatDutch_loses_nothing hfinite 2).2 _ htext).2.1⟩

theorem formatDutch_of_too_many_places :
    Datum.isFinite 1.0 = true ∧ formatDutch 2147483648 1.0 = .error (.placesTooMany 2147483648) :=
  ⟨by decide +kernel, rfl⟩

end Renovation.Report
