import Renovation.Proofs.Document.ReadingBack
import Renovation.Proofs.Outcome

set_option autoImplicit false

/-!
# Documents in files

A file whose pieces can all be written holds them one after the other. For a document that is its
text, and every whole number in it has few enough digits to be read.
-/

namespace Renovation

open Outcome

namespace File

/-- All pieces can be written, and make up the content. -/
def Holds (pieces : List (Except Fault String)) (content : String) : Prop :=
  write pieces = { content }

variable {ps qs : List (Except Fault String)} {s : String}

theorem holds_content (h : (write ps).fault? = none) : Holds ps (write ps).content := by
  rw [Holds, ← h]

theorem holds_nil_iff : Holds [] s ↔ s = "" :=
  ⟨fun h => (congrArg content h).symm, fun h => by rw [h]; rfl⟩

theorem holds_cons_iff {piece : Except Fault String} :
    Holds (piece :: ps) s ↔ ∃ t u, piece = .ok t ∧ Holds ps u ∧ s = t ++ u := by
  constructor
  · intro h
    cases piece with
    | error fault => cases congrArg fault? h
    | ok t =>
      have hfault : (write ps).fault? = none := congrArg fault? h
      exact ⟨t, _, rfl, holds_content hfault, (congrArg content h).symm⟩
  · rintro ⟨t, u, rfl, hu, rfl⟩
    rw [Holds, write, hu]

theorem holds_append_iff :
    Holds (ps ++ qs) s ↔ ∃ t u, Holds ps t ∧ Holds qs u ∧ s = t ++ u := by
  induction ps generalizing s with
  | nil => simp [holds_nil_iff]
  | cons piece ps ih =>
    rw [List.cons_append, holds_cons_iff]
    constructor
    · rintro ⟨t, u, rfl, hu, rfl⟩
      obtain ⟨v, w, hv, hw, rfl⟩ := ih.mp hu
      exact ⟨t ++ v, w, holds_cons_iff.mpr ⟨t, v, rfl, hv, rfl⟩, hw, String.append_assoc.symm⟩
    · rintro ⟨t, u, ht, hu, rfl⟩
      obtain ⟨v, w, hv, hw, rfl⟩ := holds_cons_iff.mp ht
      exact ⟨v, w ++ u, hv, ih.mpr ⟨w, u, hw, hu, rfl⟩, String.append_assoc⟩

theorem holds_singleton_iff {piece : Except Fault String} :
    Holds [piece] s ↔ piece = .ok s := by
  rw [holds_cons_iff]
  constructor
  · rintro ⟨t, u, hpiece, hu, rfl⟩
    rw [hpiece, holds_nil_iff.mp hu, String.append_empty]
  · exact fun h => ⟨s, "", h, holds_nil_iff.mpr rfl, String.append_empty.symm⟩

theorem eq_of_encode_eq_ok {piece text : String} (h : encode piece = .ok text) : text = piece := by
  unfold encode at h
  split at h
  · exact (Except.ok.inj h).symm
  · cases h

end File

namespace Document

open File

variable {style : Style}

theorem pieces_whole {depth : Nat} {n : Int} {lead s : String}
    (h : Holds (pieces style depth lead (.whole n)) s) :
    s = lead ++ write style depth (.whole n) ∧ Legible (.whole n) := by
  obtain ⟨_, hwritable, htext⟩ := bind_eq_ok.mp (holds_singleton_iff.mp h)
  refine ⟨(Except.ok.inj htext).symm, ?_⟩
  unfold Datum.requireWritable at hwritable
  split at hwritable
  · rename_i hn
    simpa only [Legible, Datum.isWritable, decide_eq_true_eq] using hn
  · cases hwritable

theorem enclose_eq (style : Style) (depth : Nat) (opening closing part : String)
    (parts : List String) : style.enclose depth opening closing (part :: parts) =
      opening ++ style.line (depth + 1) ++
        (style.comma ++ style.line (depth + 1)).intercalate (part :: parts) ++
        (style.line depth ++ closing) := by
  rw [← String.append_assoc]
  rfl

def PiecesHold (style : Style) (d : Datum) : Prop :=
  ∀ {depth lead s}, Holds (pieces style depth lead d) s →
    s = lead ++ write style depth d ∧ Legible d

def ItemPiecesHold (style : Style) (xs : List Datum) : Prop :=
  xs ≠ [] → ∀ {depth lead s}, Holds (itemPieces style depth lead xs) s →
    s = lead ++ (style.comma ++ style.line depth).intercalate (writeItems style depth xs) ∧
      ItemsLegible xs

def FieldPiecesHold (style : Style) (fs : List (String × Datum)) : Prop :=
  fs ≠ [] → ∀ {depth lead s}, Holds (fieldPieces style depth lead fs) s →
    s = lead ++ (style.comma ++ style.line depth).intercalate (writeFields style depth fs) ∧
      FieldsLegible fs

theorem piecesHold_list {xs : List Datum} (hxs : ItemPiecesHold style xs) :
    PiecesHold style (.list xs) := by
  intro depth lead s h
  cases xs with
  | nil => exact ⟨(Except.ok.inj (holds_singleton_iff.mp h)).symm, trivial⟩
  | cons x xs =>
    rw [pieces] at h
    obtain ⟨t, u, ht, hu, rfl⟩ := holds_append_iff.mp h
    obtain ⟨v, w, hv, hw, rfl⟩ := holds_cons_iff.mp ht
    obtain ⟨rfl, hlegible⟩ := hxs (by simp) hw
    cases hv
    cases holds_singleton_iff.mp hu
    refine ⟨?_, hlegible⟩
    rw [write, writeItems, enclose_eq, ← writeItems]
    simp only [String.append_assoc]

theorem piecesHold_record {fs : List (String × Datum)} (hfs : FieldPiecesHold style fs) :
    PiecesHold style (.record fs) := by
  intro depth lead s h
  cases fs with
  | nil => exact ⟨(Except.ok.inj (holds_singleton_iff.mp h)).symm, trivial⟩
  | cons f fs =>
    rw [pieces] at h
    obtain ⟨t, u, ht, hu, rfl⟩ := holds_append_iff.mp h
    obtain ⟨v, w, hv, hw, rfl⟩ := holds_cons_iff.mp ht
    obtain ⟨rfl, hlegible⟩ := hfs (by simp) hw
    cases hv
    cases holds_singleton_iff.mp hu
    refine ⟨?_, hlegible⟩
    obtain ⟨name, x⟩ := f
    rw [write, writeFields, enclose_eq, ← writeFields]
    simp only [String.append_assoc]

theorem itemPiecesHold_cons {x : Datum} {xs : List Datum} (hx : PiecesHold style x)
    (hxs : ItemPiecesHold style xs) : ItemPiecesHold style (x :: xs) := by
  intro _ depth lead s h
  rw [itemPieces] at h
  obtain ⟨t, u, ht, hu, rfl⟩ := holds_append_iff.mp h
  obtain ⟨rfl, hlegible⟩ := hx ht
  cases xs with
  | nil =>
    cases holds_nil_iff.mp hu
    refine ⟨?_, hlegible, trivial⟩
    rw [writeItems, writeItems, String.intercalate_singleton, String.append_empty]
  | cons y ys =>
    obtain ⟨rfl, hothers⟩ := hxs (by simp) hu
    refine ⟨?_, hlegible, hothers⟩
    simp only [writeItems, String.intercalate_cons_cons, String.append_assoc]

theorem fieldPiecesHold_cons {name : String} {x : Datum} {fs : List (String × Datum)}
    (hx : PiecesHold style x) (hfs : FieldPiecesHold style fs) :
    FieldPiecesHold style ((name, x) :: fs) := by
  intro _ depth lead s h
  rw [fieldPieces] at h
  obtain ⟨t, u, ht, hu, rfl⟩ := holds_append_iff.mp h
  obtain ⟨-, v, ⟨⟩, hv, rfl⟩ := holds_cons_iff.mp ht
  obtain ⟨quoted, w, hquoted, hw, rfl⟩ := holds_cons_iff.mp hv
  obtain ⟨-, z, ⟨⟩, hz, rfl⟩ := holds_cons_iff.mp hw
  cases eq_of_encode_eq_ok hquoted
  obtain ⟨rfl, hlegible⟩ := hx hz
  cases fs with
  | nil =>
    cases holds_nil_iff.mp hu
    refine ⟨?_, hlegible, trivial⟩
    rw [writeFields, writeFields, String.intercalate_singleton]
    simp only [String.append_assoc, String.append_empty, String.empty_append]
  | cons g gs =>
    obtain ⟨rfl, hothers⟩ := hfs (by simp) hu
    refine ⟨?_, hlegible, hothers⟩
    obtain ⟨other, y⟩ := g
    simp only [writeFields, String.intercalate_cons_cons, String.append_assoc, String.empty_append]

mutual

theorem piecesHold : ∀ d : Datum, PiecesHold style d
  | .null | .flag _ | .real _ => fun h => ⟨(Except.ok.inj (holds_singleton_iff.mp h)).symm, trivial⟩
  | .text _ => fun h => ⟨eq_of_encode_eq_ok (holds_singleton_iff.mp h), trivial⟩
  | .whole _ => pieces_whole
  | .list xs => piecesHold_list (itemPiecesHold xs)
  | .record fs => piecesHold_record (fieldPiecesHold fs)

theorem itemPiecesHold : ∀ xs : List Datum, ItemPiecesHold style xs
  | [] => fun h => absurd rfl h
  | x :: xs => itemPiecesHold_cons (piecesHold x) (itemPiecesHold xs)

theorem fieldPiecesHold : ∀ fs : List (String × Datum), FieldPiecesHold style fs
  | [] => fun h => absurd rfl h
  | (_, x) :: fs => fieldPiecesHold_cons (piecesHold x) (fieldPiecesHold fs)

end

end Document

end Renovation
