import Renovation.Proofs.PriceLine.Containment

set_option autoImplicit false

/-!
# Lines together

What the lines of a measure come to together. Each line without a price says once why it has none,
and is heard of in three places: it is not valid, it has an error, and it has a warning. An
aggregate passes all three on, each by a pass of its own over the lines, and so they agree.
-/

namespace Renovation

variable {α : Type}

/-- The warnings of a line are its error, if it has one, and it has one if it is not valid. -/
structure LineResult.Consistent (r : LineResult α) : Prop where
  isValid : r.isValid = r.error.isNone
  warnings : r.warnings = r.error.toList

/-! ## Passes over the same lines -/

namespace Aggregate

variable {lines : List (LineResult α)}

theorem flatMap_warnings (h : ∀ line ∈ lines, line.Consistent) :
    lines.flatMap (·.warnings) = errors lines := by
  rw [errors, List.filterMap_eq_flatMap_toList]
  refine List.flatMap_congr fun line hline => ?_
  rw [(h line hline).warnings, (h line hline).isValid]
  cases line.error <;> rfl

theorem map_some_errors (h : ∀ line ∈ lines, line.Consistent) :
    (errors lines).map some = (lines.filter (!·.isValid)).map (·.error) := by
  rw [errors]
  induction lines with
  | nil => rfl
  | cons line rest ih =>
    have hvalid := (h line (by simp)).isValid
    have hrest := ih fun other hother => h other (by simp [hother])
    cases herror : line.error with
    | none => simpa [hvalid, herror] using hrest
    | some message => simpa [hvalid, herror] using hrest

theorem length_errors (h : ∀ line ∈ lines, line.Consistent) :
    (errors lines).length = (lines.filter (!·.isValid)).length := by
  simpa using congrArg List.length (map_some_errors h)

theorem errors_eq_nil_iff (h : ∀ line ∈ lines, line.Consistent) :
    errors lines = [] ↔ ∀ line ∈ lines, line.isValid = true := by
  rw [← List.length_eq_zero_iff, length_errors h]
  simp [List.filter_eq_nil_iff]

end Aggregate

variable [Number α]

/-! ## Lines that were calculated -/

def PriceLine.failure? (c : Circumstances) (line : PriceLine α) : Option (LineFailure α) :=
  match line.evaluate c with
  | .ok _ => none
  | .error failure => some failure

/-- What a line can be calculated from: a record, or a price line or job that was read before. -/
inductive LineSource (α : Type) where
  | stored (record : Datum)
  | line (line : PriceLine α)
  | job (job : Job α)

namespace LineResult

variable (c : Circumstances) (line : PriceLine α)

theorem ofLine_isValid : (ofLine c line).isValid = (line.failure? c).isNone := by
  unfold ofLine PriceLine.failure?
  cases line.evaluate c <;> rfl

theorem ofLine_error : (ofLine c line).error = (line.failure? c).map LineFailure.message := by
  unfold ofLine PriceLine.failure?
  cases line.evaluate c <;> rfl

theorem ofLine_warnings :
    (ofLine c line).warnings = ((line.failure? c).map LineFailure.message).toList := by
  unfold ofLine PriceLine.failure?
  cases line.evaluate c <;> rfl

theorem consistent_ofLine : (ofLine c line).Consistent where
  isValid := by rw [ofLine_isValid, ofLine_error, Option.isNone_map]
  warnings := by rw [ofLine_warnings, ofLine_error]

def ofSource : LineSource α → LineResult α
  | .stored record => ofStored c record
  | .line line => ofLine c line
  | .job job => ofJob c job

theorem consistent_ofSource (source : LineSource α) : (ofSource c source).Consistent := by
  cases source with
  | line line => exact consistent_ofLine c line
  | job job => exact consistent_ofLine c job.toPriceLine
  | stored record =>
    rw [ofSource, ofStored]
    split
    · exact consistent_ofLine c _
    · exact ⟨rfl, rfl⟩

end LineResult

namespace Aggregate

section

variable {ι : Type} (c : Circumstances) (price : Circumstances → ι → LineResult α)

theorem lines_ofItems (items : List ι) : (ofItems c price items).lines =
    if c.context.isNull then [] else items.map (price c) := by
  unfold ofItems
  cases items with
  | nil => cases c.context.isNull <;> rfl
  | cons item rest => cases c.context.isNull <;> rfl

theorem warnings_ofItems (items : List ι) :
    (ofItems c price items).warnings = (ofItems c price items).lines.flatMap (·.warnings) := by
  unfold ofItems
  cases items.isEmpty || c.context.isNull <;> rfl

theorem isValid_ofItems_iff {items : List ι} : (ofItems c price items).isValid = true ↔
    items ≠ [] ∧ c.context.isNull = false ∧ ∀ item ∈ items, (price c item).isValid = true := by
  unfold ofItems
  by_cases hi : items = []
  · simp [hi, nothing]
  · cases hc : c.context.isNull with
    | true => simp [nothing]
    | false => simp [hi, ofLines]

end

section

variable (c : Circumstances) (lines : List (PriceLine α))

theorem forall_consistent_map_ofLine :
    ∀ line ∈ lines.map (LineResult.ofLine c), line.Consistent := by
  rw [List.forall_mem_map]
  exact fun line _ => LineResult.consistent_ofLine c line

theorem errors_map_ofLine : errors (lines.map (LineResult.ofLine c)) =
    (lines.filterMap (PriceLine.failure? c)).map LineFailure.message := by
  rw [errors, List.filterMap_map, List.map_filterMap]
  congr 1
  funext line
  rw [Function.comp, LineResult.ofLine_isValid, LineResult.ofLine_error]
  cases line.failure? c <;> rfl

theorem flatMap_warnings_map_ofLine :
    (lines.map (LineResult.ofLine c)).flatMap (·.warnings) =
      (lines.filterMap (PriceLine.failure? c)).map LineFailure.message := by
  rw [flatMap_warnings (forall_consistent_map_ofLine c lines), errors_map_ofLine]

theorem length_filter_invalid :
    ((lines.map (LineResult.ofLine c)).filter (!·.isValid)).length =
      (lines.filterMap (PriceLine.failure? c)).length := by
  rw [← length_errors (forall_consistent_map_ofLine c lines), errors_map_ofLine, List.length_map]

end

/-! ## The accounts -/

/-- An aggregate says the same of these lines in each of its fields. -/
structure Accounts (r : Aggregate α) (own : List (LineResult α)) : Prop where
  lines : r.lines = own
  /-- The sum from the left. -/
  price : r.price = ((own.filter (·.isValid)).map (·.total)).foldl (· + ·) 0
  isValid_iff : r.isValid = true ↔ ∀ line ∈ own, line.isValid = true
  warnings : r.warnings.map some = (own.filter (!·.isValid)).map (·.error)
  error : r.error = if r.warnings = [] then none else some ("; ".intercalate r.warnings)
  isValid_iff_warnings : r.isValid = true ↔ r.warnings = []
  isValid_iff_error : r.isValid = true ↔ r.error = none

theorem accounts_ofLines {lines : List (LineResult α)} (h : ∀ line ∈ lines, line.Consistent) :
    (ofLines lines).Accounts lines := by
  have hwarnings : (ofLines lines).warnings = errors lines := flatMap_warnings h
  have hvalid : (ofLines lines).isValid = true ↔ ∀ line ∈ lines, line.isValid = true := by
    simp [ofLines]
  have herror : (ofLines lines).error =
      if errors lines = [] then none else some ("; ".intercalate (errors lines)) := by
    simp [ofLines]
  refine ⟨rfl, rfl, hvalid, ?_, ?_, ?_, ?_⟩
  · rw [hwarnings, map_some_errors h]
  · rw [hwarnings, herror]
  · rw [hvalid, hwarnings, errors_eq_nil_iff h]
  · rw [hvalid, herror, ← errors_eq_nil_iff h]
    split <;> simp_all

/-- Whatever the items, the context and the options are. With something to calculate there is one
line for each item, in order, and the accounts of these lines hold; without, there is an error and
nothing else. Either way an aggregate is valid exactly if it has no error. -/
theorem ofItems_accounts (c : Circumstances) (items : List (LineSource α)) :
    let r := ofItems c LineResult.ofSource items
    (items ≠ [] → c.context.isNull = false → r.Accounts (items.map (LineResult.ofSource c))) ∧
    (items = [] ∨ c.context.isNull = true →
      r.isValid = false ∧ r.price = 0 ∧ r.lines = [] ∧ r.warnings = [] ∧
        ∃ message, message ≠ "" ∧ r.error = some message) ∧
    (r.isValid = true ↔ r.error = none) := by
  intro r
  have hsome (hitems : items ≠ []) (hcontext : c.context.isNull = false) :
      r.Accounts (items.map (LineResult.ofSource c)) := by
    have hr : r = ofLines (items.map (LineResult.ofSource c)) := by
      simp [r, ofItems, hitems, hcontext]
    rw [hr]
    refine accounts_ofLines fun line hline => ?_
    obtain ⟨source, -, rfl⟩ := List.mem_map.mp hline
    exact LineResult.consistent_ofSource c source
  have hnone (h : items = [] ∨ c.context.isNull = true) : r = nothing := by
    simpa [r, ofItems] using fun hitems hcontext => absurd h (by simp [hitems, hcontext])
  refine ⟨hsome, fun h => ?_, ?_⟩
  · rw [hnone h]
    exact ⟨rfl, rfl, rfl, rfl, _, by decide, rfl⟩
  · by_cases h : items = [] ∨ c.context.isNull = true
    · rw [hnone h]
      simp [nothing]
    · rw [not_or, Bool.not_eq_true] at h
      exact (hsome h.1 h.2).isValid_iff_error

end Aggregate

end Renovation
