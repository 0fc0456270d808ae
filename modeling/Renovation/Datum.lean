import Renovation.Decimal.Binary
import Renovation.Text.Half

set_option autoImplicit false

/-!
# Stored values

What documents hold: measures, contexts and settings come as nested records whose fields may hold
anything, so the readers of this library start from one dynamic type. Whole numbers and doubles are
kept apart, and records keep the order of their fields.

`same` is equality of what is stored, not of how: numbers are compared by value, a flag counts as 0
or 1, records forget the order of their fields.
-/

namespace Renovation

/-- Named values in the order in which they were first named. -/
abbrev Entries (β : Type) := List (String × β)

namespace Entries

variable {β : Type}

/-- Give a name a value: in its place if it has one, else after the others. -/
def put (name : String) (value : β) : Entries β → Entries β
  | [] => [(name, value)]
  | (k, v) :: rest => if k == name then (k, value) :: rest else (k, v) :: put name value rest

def update (base newer : Entries β) : Entries β :=
  newer.foldl (fun entries entry => entries.put entry.1 entry.2) base

/-- Entries in order, each name in its first place with its last value. -/
def ofList (entries : List (String × β)) : Entries β := update [] entries

theorem lookup_put (name : String) (value : β) (entries : Entries β) (other : String) :
    (entries.put name value).lookup other =
      if other == name then some value else entries.lookup other := by
  induction entries with
  | nil =>
    rw [put, List.lookup_cons, List.lookup_nil]
    cases other == name <;> rfl
  | cons entry rest ih =>
    obtain ⟨k, v⟩ := entry
    rw [put]
    by_cases hk : k = name
    · subst hk
      rw [if_pos (beq_self_eq_true k), List.lookup_cons, List.lookup_cons]
      cases other == k <;> rfl
    · rw [if_neg (by simpa using hk), List.lookup_cons, List.lookup_cons, ih]
      by_cases ho : other = k
      · have hn : other ≠ name := ho ▸ hk
        rw [beq_iff_eq.mpr ho, beq_false_of_ne hn]
        rfl
      · rw [beq_false_of_ne ho]

theorem lookup_of_not_mem {entries : Entries β} {name : String}
    (h : name ∉ entries.map Prod.fst) : entries.lookup name = none := by
  rw [List.lookup_eq_none_iff]
  exact fun entry hentry => bne_iff_ne.mpr fun heq => h (heq ▸ List.mem_map_of_mem hentry)

end Entries

inductive Datum where
  | null
  | flag (value : Bool)
  | whole (value : Int)
  | real (value : Float)
  | text (value : String)
  | list (items : List Datum)
  | record (fields : List (String × Datum))

namespace Datum

instance : Inhabited Datum := ⟨null⟩

abbrev Fields := Entries Datum

def kind : Datum → String
  | null => "NoneType"
  | flag _ => "bool"
  | whole _ => "int"
  | real _ => "float"
  | text _ => "str"
  | list _ => "list"
  | record _ => "dict"

/-- Nothing is stored: null, false, zero and everything empty. -/
def isBlank : Datum → Bool
  | null => true
  | flag b => !b
  | whole n => n == 0
  | real x => x == 0.0
  | text s => s.isEmpty
  | list xs => xs.isEmpty
  | record fs => fs.isEmpty

def orElse (d other : Datum) : Datum := if d.isBlank then other else d

def fields? : Datum → Option Fields
  | record fs => some fs
  | _ => none

def isRecord (d : Datum) : Bool := d.fields?.isSome

def isNull : Datum → Bool
  | null => true
  | _ => false

/-- A field's value, null if the record has no such field or the value is no record. -/
def field (d : Datum) (name : String) : Datum :=
  match d with
  | record fs => (fs.lookup name).getD null
  | _ => null

def present? (d : Datum) (name : String) : Option Datum :=
  match d.field name with
  | null => none
  | value => some value

/-! ## Order and equality -/

inductive Extent where
  | negInfinite
  | finite (value : Rat)
  | posInfinite

namespace Extent

def below : Extent → Extent → Bool
  | negInfinite, negInfinite => false
  | negInfinite, _ => true
  | finite _, negInfinite => false
  | finite p, finite q => p < q
  | finite _, posInfinite => true
  | posInfinite, _ => false

def same : Extent → Extent → Bool
  | negInfinite, negInfinite => true
  | finite p, finite q => p == q
  | posInfinite, posInfinite => true
  | _, _ => false

end Extent

/-- `none` for the double that is no number. -/
def extentOfDouble (x : Float) : Option Extent :=
  match Decimal.expand x with
  | .finite b => some (.finite b.toRat)
  | .infinite true => some .negInfinite
  | .infinite false => some .posInfinite
  | .notANumber => none

/-- The outer option tells numbers from other values; flags count as 0 and 1. -/
def extent? : Datum → Option (Option Extent)
  | flag b => some (some (.finite (if b then 1 else 0)))
  | whole n => some (some (.finite n))
  | real x => some (extentOfDouble x)
  | _ => none

def sameNumber (a b : Datum) : Bool :=
  match a.extent?, b.extent? with
  | some (some p), some (some q) => p.same q
  | _, _ => false

mutual

def same : Datum → Datum → Bool
  | null, null => true
  | text s, text t => s == t
  | list xs, list ys => sameItems xs ys
  | record fs, record gs => fs.length == gs.length && sameFields fs gs
  | a, b => sameNumber a b

def sameItems : List Datum → List Datum → Bool
  | [], [] => true
  | x :: xs, y :: ys => same x y && sameItems xs ys
  | _, _ => false

def sameFields : List (String × Datum) → Fields → Bool
  | [], _ => true
  | (name, value) :: rest, gs =>
    (match gs.lookup name with
      | some other => same value other
      | none => false) && sameFields rest gs

end

mutual

/-- Strictly before in the order of their kind; none if the two have no common order. Nothing is
before or after the double that is no number. -/
def below? : Datum → Datum → Option Bool
  | text s, text t => some (Text.before s t)
  | list xs, list ys => itemsBelow? xs ys
  | a, b =>
    match a.extent?, b.extent? with
    | some p, some q =>
      some (match p, q with
        | some p, some q => p.below q
        | _, _ => false)
    | _, _ => none

def itemsBelow? : List Datum → List Datum → Option Bool
  | [], [] => some false
  | [], _ :: _ => some true
  | _ :: _, [] => some false
  | x :: xs, y :: ys => if same x y then itemsBelow? xs ys else below? x y

end

end Datum

end Renovation
