import Mathlib.Data.List.Induction
import Mathlib.Data.Nat.Digits.Defs
import Renovation.Proofs.Document.ReadingBack

set_option autoImplicit false

/-!
# What documents hold

The reader takes whole numbers with few enough digits only, so that whatever a document holds can be
put into words.
-/

namespace Renovation

namespace Decimal

end Decimal

namespace Document

open Decimal

theorem fieldsLegible_iff {fs : Datum.Fields} :
    FieldsLegible fs ↔ ∀ entry ∈ fs, Legible entry.2 := by
  induction fs with
  | nil => exact iff_of_true trivial nofun
  | cons entry fs ih => rw [FieldsLegible, ih, List.forall_mem_cons]

/-! ## Parts and texts -/

theorem Legible.field {d : Datum} (h : Legible d) (name : String) : Legible (d.field name) := by
  cases d with
  | record fs =>
    rw [Datum.field]
    cases hvalue : fs.lookup name with
    | none => trivial
    | some value =>
      obtain ⟨front, back, rfl, -⟩ := List.lookup_eq_some_iff.mp hvalue
      exact fieldsLegible_iff.mp h (name, value) (by simp)
  | null | flag | whole | real | text | list => trivial

mutual

theorem Legible.isWritable : ∀ {d : Datum}, Legible d → d.isWritable = true
  | .whole _, h => decide_eq_true h
  | .list _, h => itemsWritable_of_legible h
  | .record _, h => fieldsWritable_of_legible h []
  | .null, _ | .flag _, _ | .real _, _ | .text _, _ => rfl

theorem itemsWritable_of_legible : ∀ {xs : List Datum}, ItemsLegible xs →
    Datum.itemsWritable xs = true
  | [], _ => rfl
  | _ :: _, h => by
    rw [Datum.itemsWritable, h.1.isWritable, itemsWritable_of_legible h.2]
    rfl

theorem fieldsWritable_of_legible : ∀ {fs : Datum.Fields}, FieldsLegible fs →
    ∀ earlier, Datum.fieldsWritable earlier fs = true
  | [], _, _ => rfl
  | (_, _) :: _, h, _ => by
    rw [Datum.fieldsWritable, h.1.isWritable, fieldsWritable_of_legible h.2, Bool.or_true]
    rfl

end

/-! ## The reader -/

section

variable {fuel : ℕ} {cs rest : List Char}

end

end Document

end Renovation
