import Renovation.Proofs.Decimal.Whole
import Renovation.Proofs.Maintenance.Stopping
import Renovation.Proofs.Measure.Reading
import Renovation.Proofs.Project.Totals
import Renovation.Run

set_option autoImplicit false

/-!
# Faults after loading

A run is refused for an input that a person can mend. But for a whole number with too many digits
such faults come from loading and from writing: what ends a calculation is else out of range, of the
wrong kind or a division by zero. In particular the count of dwellings is read as a finite number
before its fraction is cut off, so that it is never a number that has no whole part.
-/

namespace Renovation

open Outcome

/-- The fault can end a run whose inputs are loaded: it is no error in them, or is a whole number that
was to be put into words and has too many digits. -/
def Fault.IsLate (fault : Fault) : Prop := fault.isInputError = false ∨ fault = .tooManyDigits

theorem Fault.isInputError_eq_false {fault : Fault}
    (h : fault.family ∉ [.invalidValue, .unencodable, .missingFile]) :
    fault.isInputError = false := by
  unfold isInputError
  revert h
  cases fault.family <;> simp

def StopsLate {β : Type} (x : Except Fault β) : Prop := StopsOnly Fault.IsLate x

namespace StopsLate

variable {β γ : Type}

theorem ok (x : β) : StopsLate (.ok x : Except Fault β) := StopsOnly.ok x

theorem error {fault : Fault} (h : fault.isInputError = false) :
    StopsLate (.error fault : Except Fault β) :=
  StopsOnly.error (.inl h)

theorem bind {first : Except Fault β} {next : β → Except Fault γ} (hfirst : StopsLate first)
    (hnext : ∀ x, first = .ok x → StopsLate (next x)) : StopsLate (first >>= next) :=
  StopsOnly.bind hfirst hnext

theorem mapM {f : β → Except Fault γ} (h : ∀ x, StopsLate (f x)) (xs : List β) :
    StopsLate (xs.mapM f) :=
  StopsOnly.mapM h xs

theorem ite {condition : Prop} [Decidable condition] {first second : Except Fault β}
    (hfirst : StopsLate first) (hsecond : StopsLate second) :
    StopsLate (if condition then first else second) :=
  StopsOnly.ite hfirst hsecond

end StopsLate

/-! ## Reading -/

theorem Datum.stopsLate_wholeToDouble (n : Int) : StopsLate (Datum.wholeToDouble n) :=
  (Datum.stopsOnly_wholeToDouble n).mono fun _ h => .inl (by rw [h]; rfl)

theorem Datum.stopsLate_number (d : Datum) : StopsLate d.number :=
  d.stopsOnly_number.mono fun _ h => .inl (by rw [h]; rfl)

theorem Mention.stopsLate_check (mentions : List Mention) : StopsLate (check mentions) :=
  (stopsOnly_check mentions).mono fun _ => .inr

theorem Datum.stopsLate_numberOrZero (d : Datum) : StopsLate d.numberOrZero :=
  d.stopsLate_number.bind fun _ _ => .ok _

theorem ResidenceType.stopsLate_classify (d : Datum) : StopsLate (classify d) := by
  refine .ite (.ok _) ?_
  cases d with
  | text s => exact .ok _
  | null | flag | real | whole | list | record => exact .error rfl

section

variable {α : Type} [Number α]

theorem stopsLate_readNumber (d : Datum) : StopsLate (readNumber d : Except _ (Option α)) :=
  d.stopsLate_number.bind fun _ _ => .ok _

theorem TypePrices.stopsLate_read (stored : Datum) :
    StopsLate (TypePrices.read stored : Except _ (Option (TypePrices α))) := by
  unfold TypePrices.read
  refine .ite (.ok _) ?_
  refine (stopsLate_readNumber _).bind fun ground _ => ?_
  refine (stopsLate_readNumber _).bind fun _ _ => (stopsLate_readNumber _).bind fun _ _ => ?_
  cases ground with
  | some price => exact .ok _
  | none => exact (stopsLate_readNumber _).bind fun _ _ => .ok _

theorem PriceLine.stopsLate_read (stored : Datum) :
    StopsLate (PriceLine.read stored : Except _ (PriceLine α)) := by
  unfold PriceLine.read
  refine (Mention.stopsLate_check _).bind fun _ _ => .ite (.ok _) ?_
  exact (stopsLate_readNumber _).bind fun _ _ =>
    (TypePrices.stopsLate_read _).bind fun _ _ => .ok _

theorem Job.stopsLate_read (stored : Datum) :
    StopsLate (Job.read stored : Except _ (Job α)) :=
  (PriceLine.stopsLate_read stored).bind fun _ _ =>
    (stopsLate_readNumber _).bind fun _ _ => (stopsLate_readNumber _).bind fun _ _ => .ok _

theorem Measure.stopsLate_readItems {β : Type} {item : Datum → Except Fault β}
    (h : ∀ d, StopsLate (item d)) (stored : Datum) : StopsLate (readItems item stored) :=
  (Mention.stopsLate_check _).bind fun _ _ => .mapM h _

theorem Measure.stopsLate_read (stored : Datum) :
    StopsLate (Measure.read stored : Except _ (Measure α)) := by
  unfold Measure.read
  refine (Mention.stopsLate_check _).bind fun _ _ => .ite (.ok _) ?_
  exact (stopsLate_readItems PriceLine.stopsLate_read _).bind fun _ _ =>
    (stopsLate_readItems Job.stopsLate_read _).bind fun _ _ =>
      (stopsLate_readNumber _).bind fun _ _ => .ok _

end

/-! ## Calculating -/

theorem Maintenance.stopsLate_projectLines (horizon : Horizon) (inflation : Float)
    (lines : List (LineResult Float)) (jobs : List (Option (Job Float))) :
    StopsLate (projectLines horizon inflation lines jobs) := by
  refine (stopsOnly_projectLines horizon inflation lines jobs).mono fun fault h => .inl ?_
  refine Fault.isInputError_eq_false ?_
  rcases h with (h | h) | ⟨-, h⟩ <;> (rw [h]; decide)

theorem HeatDemand.stopsLate_reduction (table residenceType period : Datum) :
    StopsLate (reduction table residenceType period) := by
  unfold reduction
  refine .ite (.ok _) ?_
  refine (ResidenceType.stopsLate_classify _).bind fun type _ => ?_
  split
  · unfold inPeriod
    split
    · exact Datum.stopsLate_numberOrZero _
    · exact .ok _
  · exact .ok _

namespace Measure

theorem stopsLate_calculate (c : Calculation Float) (m : Measure Float) :
    StopsLate (m.calculate c) := by
  have hupkeep : StopsLate (m.upkeep c) :=
    .ite (.ok _) ((Maintenance.stopsLate_projectLines _ _ _ _).bind fun _ _ => .ok _)
  exact hupkeep.bind fun _ _ => (HeatDemand.stopsLate_reduction _ _ _).bind fun _ _ => .ok _

theorem stopsLate_calculateStored (c : Calculation Float) (stored : Datum) :
    StopsLate (calculateStored c stored) :=
  (stopsLate_read stored).bind fun m _ => m.stopsLate_calculate c

end Measure

namespace Project

theorem stopsLate_calculate (c : Calculation Float) (measures : List Datum) :
    StopsLate (calculate c measures) :=
  (StopsLate.mapM (Measure.stopsLate_calculateStored c) measures).bind fun _ _ =>
    ((Datum.stopsOnly_requireWritable _).mono fun _ => .inr).bind fun _ _ => .ok _

end Project

/-! ## Dwellings and the budget -/

theorem Budget.stopsLate_calculate (total : Float) (settings : Settings Float) (units : Nat) :
    StopsLate (calculate total settings units) := by
  have hunit (amount : Float) : StopsLate (perUnit amount units) :=
    .ite (.ok _) ((Datum.stopsLate_wholeToDouble _).bind fun _ _ => .ok _)
  exact (hunit _).bind fun _ _ => (hunit _).bind fun _ _ => .ok _

/-! ## Labels -/

namespace EnergyLabel

end EnergyLabel

/-! ## A loaded run -/

namespace Run

end Run

end Renovation
