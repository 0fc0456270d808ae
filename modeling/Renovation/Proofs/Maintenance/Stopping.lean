import Renovation.Proofs.Datum.Conversion
import Renovation.Proofs.Maintenance.Matching
import Renovation.Proofs.Maintenance.Years

set_option autoImplicit false

/-!
# What stops a projection

A projection over doubles stops for three reasons only: a number is out of range, the years of a job
do not end, or there are no years to spread a total over.
-/

namespace Renovation

open Outcome

/-- A number is out of range, or the years of a job do not end. -/
def OutOfReach (fault : Fault) : Prop :=
  fault.family = .outOfRange ∨ fault.family = .unending

namespace Maintenance

def MayStop (horizon : Horizon) (fault : Fault) : Prop :=
  OutOfReach fault ∨ horizon.years = 0 ∧ fault.family = .zeroDivision

variable (horizon : Horizon) (inflation : Float)

theorem stopsOnly_power (base exponent : Float) :
    StopsOnly (·.family = Fault.Family.outOfRange) (Growth.power base exponent) :=
  .ite (.ite (.error rfl) (.ok _)) (.ite (.error rfl) (.ok _))

theorem stopsOnly_occurrences (price growth : Float) (years : List Float) :
    StopsOnly (·.family = Fault.Family.outOfRange) (occurrences price growth years) :=
  .mapM (fun _ => (stopsOnly_power _ _).bind fun _ _ => .ok _) _

theorem stopsOnly_spread (total : Cost Float) :
    StopsOnly (MayStop horizon) (spread horizon total) := by
  unfold spread
  split
  case isTrue hzero => exact .error (.inr ⟨by simpa using hzero, rfl⟩)
  case isFalse =>
    have hwhole : StopsOnly (MayStop horizon) (Datum.wholeToDouble horizon.years) :=
      (Datum.stopsOnly_wholeToDouble _).mono fun _ h => .inl (.inl (by rw [h]; rfl))
    exact hwhole.bind fun _ _ => .ok _

theorem stopsOnly_share (found : List (Occurrence Float)) :
    StopsOnly (MayStop horizon) (share horizon found) := by
  refine .ite ?_ (stopsOnly_spread horizon _)
  unfold spreadNothing
  split
  case isTrue hzero => exact .error (.inr ⟨by simpa using hzero, rfl⟩)
  case isFalse => exact .ok _

theorem stopsOnly_project (line : LineResult Float) (job : Job Float) :
    StopsOnly (MayStop horizon) (project horizon inflation line job) := by
  cases hv : line.isValid with
  | false =>
    rw [project_of_invalid horizon inflation job hv]
    exact .ok _
  | true =>
    rw [project_of_valid horizon inflation job hv]
    have hyears : StopsOnly (MayStop horizon) (dueYears horizon job) :=
      (stopsOnly_dueYears horizon job).mono fun _ h => .inl (.inr (by rw [h]; rfl))
    refine hyears.bind fun years _ => ?_
    have hfound : StopsOnly (MayStop horizon)
        (occurrences line.total (growthFactor inflation) years) :=
      (stopsOnly_occurrences _ _ _).mono fun _ h => .inl (.inl h)
    exact hfound.bind fun _ _ => (stopsOnly_share horizon _).bind fun _ _ => .ok _

theorem stopsOnly_combine (combined : Projection Float) (lines : List (LineResult Float))
    (jobs : List (Option (Job Float))) :
    StopsOnly (MayStop horizon) (combine horizon inflation combined lines jobs) := by
  induction lines generalizing combined jobs with
  | nil => exact .ok _
  | cons line rest ih =>
    rw [combine]
    split
    · exact ih _ _
    · exact (stopsOnly_project horizon inflation _ _).bind fun _ _ => ih _ _

theorem stopsOnly_projectLines (lines : List (LineResult Float))
    (jobs : List (Option (Job Float))) :
    StopsOnly (MayStop horizon) (projectLines horizon inflation lines jobs) :=
  (stopsOnly_combine horizon inflation _ _ _).bind fun _ _ =>
    (stopsOnly_spread horizon _).bind fun _ _ => .ok _

end Maintenance

end Renovation
