import Renovation.Mention
import Renovation.Proofs.Outcome

set_option autoImplicit false

/-!
# Which values convert

A whole number beyond the doubles stops the reading of a number, one with too many digits stops
whatever asks for its text. Nothing else does, so that each conversion has an exact condition.
-/

namespace Renovation

open Outcome

namespace Datum

/-! ## Numbers -/

/-- A whole number has a nearest double; nothing is asked of other values. -/
def InRange : Datum → Prop
  | whole n => n.natAbs < Decimal.twoTo 1024 - Decimal.twoTo 970
  | _ => True

instance (d : Datum) : Decidable d.InRange :=
  match d with
  | whole n =>
    inferInstanceAs (Decidable (n.natAbs < Decimal.twoTo 1024 - Decimal.twoTo 970))
  | null | flag _ | real _ | text _ | list _ | record _ => inferInstanceAs (Decidable True)

theorem wholeToDouble_returns_iff {n : Int} :
    (∃ x, wholeToDouble n = .ok x) ↔ (whole n).InRange := by
  unfold wholeToDouble Decimal.wholeToDouble? InRange
  by_cases h : Decimal.twoTo 1024 - Decimal.twoTo 970 ≤ n.natAbs
  · rw [if_pos h]
    exact ⟨nofun, fun hn => absurd h (Nat.not_le.mpr hn)⟩
  · rw [if_neg h]
    exact ⟨fun _ => Nat.not_le.mp h, fun _ => ⟨_, rfl⟩⟩

theorem number_returns_iff {d : Datum} : (∃ x, d.number = .ok x) ↔ d.InRange := by
  cases d with
  | whole n =>
    rw [← wholeToDouble_returns_iff, number]
    cases wholeToDouble n with
    | error fault => simp [Except.map]
    | ok x => simp [Except.map]
  | null | flag | real | text | list | record => exact ⟨fun _ => trivial, fun _ => ⟨_, rfl⟩⟩

theorem number_of_not_inRange {d : Datum} (h : ¬ d.InRange) :
    d.number = .error .wholeTooLarge := by
  cases d with
  | whole n =>
    unfold InRange at h
    unfold number wholeToDouble Decimal.wholeToDouble?
    dsimp only
    rw [if_pos (Nat.not_lt.mp h)]
    rfl
  | null | flag | real | text | list | record => exact absurd trivial h

theorem numberOrZero_returns_iff {d : Datum} : (∃ x, d.numberOrZero = .ok x) ↔ d.InRange := by
  unfold numberOrZero
  simp only [returns_bind, pure_eq, returns_ok, and_true, number_returns_iff]

theorem stopsOnly_wholeToDouble (n : Int) : StopsOnly (· = Fault.wholeTooLarge) (wholeToDouble n) := by
  unfold wholeToDouble
  split
  · exact .ok _
  · exact .error rfl

theorem stopsOnly_number (d : Datum) : StopsOnly (· = Fault.wholeTooLarge) d.number := by
  cases d with
  | whole n =>
    rw [number]
    exact (stopsOnly_wholeToDouble n).map
  | null | flag | real | text | list | record => exact .ok _

/-! ## Texts -/

theorem fieldsWritable_iff {earlier : List String} {fs : Fields} :
    fieldsWritable earlier fs = true ↔
      ∀ name value, name ∉ earlier → fs.lookup name = some value → value.isWritable = true := by
  induction fs generalizing earlier with
  | nil => exact iff_of_true rfl nofun
  | cons entry rest ih =>
    obtain ⟨first, d⟩ := entry
    rw [fieldsWritable, Bool.and_eq_true, Bool.or_eq_true, List.contains_iff_mem, ih]
    constructor
    · rintro ⟨hfirst, hrest⟩ name value hearlier hvalue
      by_cases heq : name = first
      · subst heq
        rw [List.lookup_cons, beq_self_eq_true] at hvalue
        cases hvalue
        exact hfirst.resolve_left hearlier
      · rw [List.lookup_cons, beq_false_of_ne heq] at hvalue
        exact hrest name value (List.not_mem_cons_of_ne_of_not_mem heq hearlier) hvalue
    · intro h
      refine ⟨Classical.or_iff_not_imp_left.mpr fun hfirst => ?_, fun name value hearlier => ?_⟩
      · refine h first d hfirst ?_
        rw [List.lookup_cons, beq_self_eq_true]
      · obtain ⟨hne, hearlier⟩ := not_or.mp (mt List.mem_cons.mpr hearlier)
        intro hvalue
        refine h name value hearlier ?_
        rwa [List.lookup_cons, beq_false_of_ne hne]

theorem isWritable_iff_fields {d : Datum} (h : d.isRecord = true) :
    d.isWritable = true ↔ ∀ name, (d.field name).isWritable = true := by
  cases d with
  | record fs =>
    rw [isWritable, fieldsWritable_iff]
    constructor
    · intro hall name
      rw [field]
      cases hvalue : fs.lookup name with
      | none => rfl
      | some value => exact hall name value List.not_mem_nil hvalue
    · intro hall name value _ hvalue
      have hname := hall name
      rwa [field, hvalue] at hname
  | null | flag | whole | real | text | list => cases h

/-- The least whole number that has no text. -/
def unwritten : Datum := whole (Decimal.tenTo Decimal.wholeDigits)

theorem isWritable_unwritten : unwritten.isWritable = false := by decide +kernel

theorem requireWritable_eq_ok_iff {d : Datum} {u : Unit} :
    d.requireWritable = .ok u ↔ d.isWritable = true := by
  unfold requireWritable
  split <;> simp_all

theorem stopsOnly_requireWritable (d : Datum) :
    StopsOnly (· = Fault.tooManyDigits) d.requireWritable :=
  .ite (.ok _) (.error rfl)

end Datum

namespace Mention

theorem check_eq_ok_iff {mentions : List Mention} {u : Unit} :
    check mentions = .ok u ↔ ∀ m ∈ mentions, m.isWritable = true := by
  unfold check
  split <;> simp_all

theorem stopsOnly_check (mentions : List Mention) :
    StopsOnly (· = Fault.tooManyDigits) (check mentions) :=
  .ite (.ok _) (.error rfl)

end Mention

end Renovation
