import Renovation.RunLog.Value

set_option autoImplicit false

/-!
# Plain values

A value is plain if it can be stored as it is: no tuple, path, array or number of numerical code is
in it, at any depth. The conversion makes every value plain, moves nothing in it, and changes only
what was not plain.
-/

namespace Renovation

/-- What a value is made of and where: containers of two kinds, and what the leaves say. No content
is null. -/
inductive Shape where
  | leaf (content : Option Scalar)
  | list (items : List Shape)
  | record (fields : List (String × Shape))

namespace NumberArray

mutual

def shape : NumberArray → Shape
  | cell value => .leaf (some value)
  | row items => .list (shapeItems items)

def shapeItems : List NumberArray → List Shape
  | [] => []
  | item :: rest => shape item :: shapeItems rest

end

end NumberArray

namespace LogValue

mutual

def shape : LogValue → Shape
  | null => .leaf none
  | flag b => .leaf (some (.flag b))
  | whole n => .leaf (some (.whole n))
  | real x => .leaf (some (.real x))
  | text s => .leaf (some (.text s))
  | list items => .list (shapeItems items)
  | tuple items => .list (shapeItems items)
  | record fields => .record (shapeFields fields)
  | path p => .leaf (some (.text (Text.normalPath p)))
  | array a => a.shape
  | scalar s => .leaf (some s)

def shapeItems : List LogValue → List Shape
  | [] => []
  | item :: rest => shape item :: shapeItems rest

def shapeFields : List (String × LogValue) → List (String × Shape)
  | [] => []
  | (name, value) :: rest => (name, shape value) :: shapeFields rest

end

mutual

def IsPlain : LogValue → Prop
  | null | flag _ | whole _ | real _ | text _ => True
  | list items => ItemsPlain items
  | record fields => FieldsPlain fields
  | tuple _ | path _ | array _ | scalar _ => False

def ItemsPlain : List LogValue → Prop
  | [] => True
  | item :: rest => IsPlain item ∧ ItemsPlain rest

def FieldsPlain : List (String × LogValue) → Prop
  | [] => True
  | (_, value) :: rest => IsPlain value ∧ FieldsPlain rest

end

/-! ## Stored values are plain -/

mutual

@[simp] theorem isPlain_ofDatum : (d : Datum) → (ofDatum d).IsPlain
  | .null | .flag _ | .whole _ | .real _ | .text _ => by simp [ofDatum, IsPlain]
  | .list items => by simp [ofDatum, IsPlain, itemsPlain_ofItems items]
  | .record fields => by simp [ofDatum, IsPlain, fieldsPlain_ofFields fields]

theorem itemsPlain_ofItems : (items : List Datum) → ItemsPlain (ofItems items)
  | [] => by simp [ofItems, ItemsPlain]
  | item :: rest => by
    simp [ofItems, ItemsPlain, isPlain_ofDatum item, itemsPlain_ofItems rest]

theorem fieldsPlain_ofFields : (fields : List (String × Datum)) → FieldsPlain (ofFields fields)
  | [] => by simp [ofFields, FieldsPlain]
  | (_, value) :: rest => by
    simp [ofFields, FieldsPlain, isPlain_ofDatum value, fieldsPlain_ofFields rest]

end

/-! ## The conversion moves nothing -/

@[simp] theorem shape_ofDatum_scalar (s : Scalar) : (ofDatum s.plain).shape = .leaf (some s) := by
  cases s <;> simp [Scalar.plain, ofDatum, shape]

mutual

@[simp] theorem shape_ofDatum_array : (a : NumberArray) → (ofDatum a.plain).shape = a.shape
  | .cell value => by simp [NumberArray.plain, NumberArray.shape]
  | .row items => by
    simp [NumberArray.plain, NumberArray.shape, ofDatum, shape, shapeItems_ofItems_array items]

theorem shapeItems_ofItems_array : (items : List NumberArray) →
    shapeItems (ofItems (NumberArray.plainItems items)) = NumberArray.shapeItems items
  | [] => by simp [NumberArray.plainItems, NumberArray.shapeItems, ofItems, shapeItems]
  | item :: rest => by
    simp [NumberArray.plainItems, NumberArray.shapeItems, ofItems, shapeItems,
      shape_ofDatum_array item, shapeItems_ofItems_array rest]

end

mutual

theorem shape_ofDatum_plain : (v : LogValue) → (ofDatum v.plain).shape = v.shape
  | null | flag _ | whole _ | real _ | text _ | path _ => by simp [plain, ofDatum, shape]
  | array _ | scalar _ => by simp [plain, shape]
  | list items | tuple items => by
    simp [plain, ofDatum, shape, shapeItems_ofItems_plain items]
  | record fields => by simp [plain, ofDatum, shape, shapeFields_ofFields_plain fields]

theorem shapeItems_ofItems_plain : (items : List LogValue) →
    shapeItems (ofItems (plainItems items)) = shapeItems items
  | [] => by simp [plainItems, ofItems]
  | item :: rest => by
    simp [plainItems, ofItems, shapeItems, shape_ofDatum_plain item,
      shapeItems_ofItems_plain rest]

theorem shapeFields_ofFields_plain : (fields : List (String × LogValue)) →
    shapeFields (ofFields (plainFields fields)) = shapeFields fields
  | [] => by simp [plainFields, ofFields]
  | (_, value) :: rest => by
    simp [plainFields, ofFields, shapeFields, shape_ofDatum_plain value,
      shapeFields_ofFields_plain rest]

end

/-! ## What is plain stays -/

mutual

theorem ofDatum_plain : (v : LogValue) → v.IsPlain → ofDatum v.plain = v
  | null, _ | flag _, _ | whole _, _ | real _, _ | text _, _ => by simp [plain, ofDatum]
  | list items, h => by
    simp only [IsPlain] at h
    simp [plain, ofDatum, ofItems_plainItems items h]
  | record fields, h => by
    simp only [IsPlain] at h
    simp [plain, ofDatum, ofFields_plainFields fields h]
  | tuple _, h | path _, h | array _, h | scalar _, h => by simp [IsPlain] at h

theorem ofItems_plainItems : (items : List LogValue) → ItemsPlain items →
    ofItems (plainItems items) = items
  | [], _ => by simp [plainItems, ofItems]
  | item :: rest, h => by
    simp only [ItemsPlain] at h
    simp [plainItems, ofItems, ofDatum_plain item h.1, ofItems_plainItems rest h.2]

theorem ofFields_plainFields : (fields : List (String × LogValue)) → FieldsPlain fields →
    ofFields (plainFields fields) = fields
  | [], _ => by simp [plainFields, ofFields]
  | (_, value) :: rest, h => by
    simp only [FieldsPlain] at h
    simp [plainFields, ofFields, ofDatum_plain value h.1, ofFields_plainFields rest h.2]

end

/-- The value that the conversion leaves, among all values. -/
def converted (v : LogValue) : LogValue := ofDatum v.plain

theorem converted_eq_self_iff (v : LogValue) : v.converted = v ↔ v.IsPlain := by
  constructor
  · intro h
    rw [← h]
    exact isPlain_ofDatum v.plain
  · exact ofDatum_plain v

/-- The conversion leaves a plain value of the same shape, whatever the value and to any depth. It
leaves just the plain values as they are, so a second conversion does nothing. -/
theorem converted_is_plain_and_keeps_shape (v : LogValue) :
    v.converted.IsPlain ∧ v.converted.shape = v.shape ∧
      (v.converted = v ↔ v.IsPlain) ∧ v.converted.converted = v.converted := by
  have hplain : v.converted.IsPlain := isPlain_ofDatum v.plain
  refine ⟨hplain, shape_ofDatum_plain v, converted_eq_self_iff v, ?_⟩
  exact (converted_eq_self_iff v.converted).mpr hplain

end LogValue

end Renovation
