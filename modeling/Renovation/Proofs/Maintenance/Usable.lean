import Mathlib.Data.Rat.Floor
import Renovation.Configuration
import Renovation.Proofs.Decimal.Units
import Renovation.Proofs.Maintenance.Stopping

set_option autoImplicit false

/-!
# Horizons that can be used

A horizon is accepted for being above zero and cut off to whole years afterwards. From one year on
it can be used: nothing is ever divided by zero, and a projection stops only because a number is out
of range or the years of a job do not end. Below one year nothing is left of it, and whatever is
projected over it stops with a division by zero.
-/

namespace Renovation.Maintenance

open Decimal Outcome

/-! ## What is accepted -/

theorem truncate_eq_floor {b : Binary} (h : 0 < b.toRat) : b.truncate = ⌊b.toRat⌋ := by
  unfold Binary.truncate
  rw [Binary.toRat, Rat.mkRat_eq_div] at h ⊢
  cases hb : b.negative with
  | true =>
    rw [hb, if_pos rfl] at h
    have hle : ((-(b.num : ℤ) : ℤ) : ℚ) / b.den ≤ 0 :=
      div_nonpos_of_nonpos_of_nonneg (by simp) (Nat.cast_nonneg _)
    exact absurd h hle.not_gt
  | false =>
    simp only [Bool.false_eq_true, if_false]
    rw [Rat.floor_intCast_div_natCast]
    rfl

theorem toWhole_of_extent {stored : Datum} {extent : Option Datum.Extent}
    (h : stored.extent? = some extent) :
    (∃ x : ℚ, extent = some (.finite x) ∧ (0 < x → stored.toWhole = .ok ⌊x⌋)) ∨
      (∀ x : ℚ, extent ≠ some (.finite x)) ∧ ∃ fault, stored.toWhole = .error fault := by
  cases stored with
  | null | text | list | record => cases h
  | flag b =>
    obtain rfl := Option.some.inj h
    exact .inl ⟨_, rfl, fun _ => by cases b <;> simp [Datum.toWhole]⟩
  | whole n =>
    obtain rfl := Option.some.inj h
    exact .inl ⟨n, rfl, fun _ => by rw [Int.floor_intCast]; rfl⟩
  | real x =>
    obtain rfl := Option.some.inj h
    simp only [Datum.toWhole, truncate, Datum.extentOfDouble]
    cases expand x with
    | finite b => exact .inl ⟨b.toRat, rfl, fun hpos => by simp [truncate_eq_floor hpos]⟩
    | infinite negative => exact .inr ⟨by cases negative <;> simp, _, rfl⟩
    | notANumber => exact .inr ⟨by simp, _, rfl⟩

theorem ofStored_eq_ok_iff {stored : Datum} {horizon : Horizon} :
    Horizon.ofStored stored = .ok horizon ↔
      ∃ x : ℚ, stored.extent? = some (some (.finite x)) ∧ 0 < x ∧ horizon.years = ⌊x⌋ := by
  obtain ⟨years⟩ := horizon
  unfold Horizon.ofStored
  cases he : stored.extent? with
  | none => simp
  | some extent =>
    rcases toWhole_of_extent he with ⟨x, rfl, hwhole⟩ | ⟨hfinite, fault, hfault⟩
    · by_cases hx : 0 < x
      · have hlarge : Horizon.tooSmall (some (.finite x)) = false := by
          simp [Horizon.tooSmall, Datum.Extent.below, hx]
        simp [hlarge, hwhole hx, hx, eq_comm]
      · have hsmall : Horizon.tooSmall (some (.finite x)) = true := by
          simpa [Horizon.tooSmall, Datum.Extent.below] using hx
        simp [hsmall, hx]
    · simp only [hfault, error_bind]
      constructor
      · intro h
        split at h <;> cases h
      · rintro ⟨x, hx, -⟩
        exact absurd (Option.some.inj hx) (hfinite x)

/-! ## From one year on -/

variable {horizon : Horizon}

theorem stopsOnly_of_one_le {β : Type} {x : Except Fault β} (hh : 1 ≤ horizon.years)
    (h : StopsOnly (MayStop horizon) x) : StopsOnly OutOfReach x :=
  h.mono fun _ hstop => hstop.resolve_right fun hzero => by omega

/-! ## Below one year -/

def nothingLeft : Horizon := ⟨0⟩

theorem below_zero_of_belowWhole {x : Float} (h : Number.belowWhole x 0 = true) :
    Number.below x 0 = true := by
  cases hx : Datum.isFinite x with
  | true =>
    rcases holds_or_negative hx with ⟨n, hn⟩ | ⟨-, hbelow, -⟩
    · simpa using (hn.belowWhole_iff le_rfl).mp h
    · exact hbelow
  | false =>
    simp only [Number.belowWhole, Datum.extentOfDouble, Datum.isFinite, expand_eq] at h hx
    rw [below_iff]
    cases hu : x.toModel.unpack with
    | zero | finite =>
      rw [hu] at hx
      cases hx
    | notANumber =>
      rw [hu] at h
      cases h
    | infinity s =>
      rw [hu] at h
      cases s with
      | negative => rfl
      | positive => cases h

theorem dueYears_nothingLeft (job : Job Float) : dueYears nothingLeft job = .ok [] := by
  unfold dueYears
  split
  · rfl
  · rename_i hdue
    simp only [Bool.or_eq_true, Bool.not_eq_true', not_or, Bool.not_eq_false] at hdue
    -- a start before the end of no years is below zero, and counts as year zero
    have hfirst : firstYear job = 0 := if_pos (below_zero_of_belowWhole hdue.2)
    refine yearsFrom_of_reached _ ?_
    rw [hfirst]
    decide +kernel

theorem project_nothingLeft (inflation : Float) {line : LineResult Float} (job : Job Float)
    (h : line.isValid = true) :
    project nothingLeft inflation line job = .error .wholeDivisionByZero := by
  rw [project_of_valid _ _ _ h, dueYears_nothingLeft]
  rfl

theorem combine_nothingLeft (inflation : Float) (combined : Projection Float)
    (lines : List (LineResult Float)) (jobs : List (Option (Job Float))) :
    (usesInflation lines jobs = true →
      combine nothingLeft inflation combined lines jobs = .error .wholeDivisionByZero) ∧
    (usesInflation lines jobs = false →
      ∃ p, combine nothingLeft inflation combined lines jobs = .ok p) := by
  induction lines generalizing combined jobs with
  | nil => exact ⟨nofun, fun _ => ⟨combined, rfl⟩⟩
  | cons line rest ih =>
    have huses : usesInflation (line :: rest) jobs =
        (line.isValid && (jobFor? line jobs.head?.join).isSome || usesInflation rest jobs.tail) := by
      cases jobs with
      | nil => simp [usesInflation, jobFor?]
      | cons job? jobs => rfl
    rw [combine, huses]
    cases hjob : jobFor? line jobs.head?.join with
    | none => simpa using ih _ jobs.tail
    | some job =>
      -- the first valid line that has its job ends the projection
      cases hv : line.isValid with
      | true => simp [project_nothingLeft inflation job hv]
      | false => simpa [project_of_invalid nothingLeft inflation job hv] using ih _ jobs.tail

theorem projectLines_nothingLeft (inflation : Float) (lines : List (LineResult Float))
    (jobs : List (Option (Job Float))) :
    projectLines nothingLeft inflation lines jobs =
      .error (if usesInflation lines jobs then .wholeDivisionByZero else .divisionByZero) := by
  obtain ⟨hstops, hreturns⟩ := combine_nothingLeft inflation .empty lines jobs
  rw [projectLines]
  cases huses : usesInflation lines jobs with
  | true =>
    rw [hstops huses]
    rfl
  | false =>
    obtain ⟨p, hp⟩ := hreturns huses
    rw [hp]
    rfl

/-! ## All that is accepted -/

theorem horizonYears_of_extent {stored : Datum} {x : ℚ}
    (h : stored.extent? = some (some (.finite x))) (hpos : 0 < x) :
    Configuration.horizonYears stored =
      if ⌊x⌋ ≤ 0 then .error .horizonNotPositive else .ok ⌊x⌋ := by
  rcases toWhole_of_extent h with ⟨y, hy, hwhole⟩ | ⟨hfinite, -⟩
  · cases hy
    rw [Configuration.horizonYears, hwhole hpos]
  · exact absurd rfl (hfinite x)

/-- Exactly the finite numbers above zero are accepted, and the floor is kept. From one year on a
projection over it never divides by zero, whatever the lines, the jobs and the inflation are. Below
one year every projection of a valid line does, and that of any lines does even if there are none;
the configuration does not take such a number. -/
theorem ofStored_usable_or_nothingLeft (stored : Datum) :
    (∀ horizon : Horizon, Horizon.ofStored stored = .ok horizon ↔
      ∃ x : ℚ, stored.extent? = some (some (.finite x)) ∧ 0 < x ∧ horizon.years = ⌊x⌋) ∧
    ∀ horizon : Horizon, Horizon.ofStored stored = .ok horizon →
    ∃ x : ℚ, stored.extent? = some (some (.finite x)) ∧ 0 < x ∧ horizon.years = ⌊x⌋ ∧
      (1 ≤ x → 1 ≤ horizon.years ∧ Configuration.horizonYears stored = .ok horizon.years ∧
        ∀ inflation : Float,
          (∀ line job, StopsOnly OutOfReach (project horizon inflation line job)) ∧
          ∀ lines jobs, StopsOnly OutOfReach (projectLines horizon inflation lines jobs)) ∧
      (x < 1 → horizon.years = 0 ∧
        Configuration.horizonYears stored = .error .horizonNotPositive ∧
        ∀ inflation : Float,
          (∀ line job, line.isValid = true →
            project horizon inflation line job = .error .wholeDivisionByZero) ∧
          ∀ lines jobs, projectLines horizon inflation lines jobs =
            .error (if usesInflation lines jobs then .wholeDivisionByZero else .divisionByZero)) := by
  refine ⟨fun horizon => ofStored_eq_ok_iff, fun horizon accepted => ?_⟩
  obtain ⟨x, hextent, hpos, hyears⟩ := ofStored_eq_ok_iff.mp accepted
  have hconfigured := horizonYears_of_extent hextent hpos
  rw [← hyears] at hconfigured
  refine ⟨x, hextent, hpos, hyears, fun hone => ?_, fun hless => ?_⟩
  · have hh : 1 ≤ horizon.years := by
      rw [hyears, Int.le_floor]
      exact_mod_cast hone
    rw [if_neg (by omega)] at hconfigured
    refine ⟨hh, hconfigured, fun inflation => ⟨fun line job => ?_, fun lines jobs => ?_⟩⟩
    · exact stopsOnly_of_one_le hh (stopsOnly_project horizon inflation line job)
    · exact stopsOnly_of_one_le hh (stopsOnly_projectLines horizon inflation lines jobs)
  · have hzero : horizon = nothingLeft := by
      have hfloor : ⌊x⌋ = 0 := Int.floor_eq_zero_iff.mpr ⟨hpos.le, hless⟩
      rw [hfloor] at hyears
      cases horizon
      cases hyears
      rfl
    subst hzero
    exact ⟨rfl, hconfigured, fun inflation =>
      ⟨fun line job => project_nothingLeft inflation job, projectLines_nothingLeft inflation⟩⟩

theorem ofStored_usable_forty : Horizon.ofStored (.real 40.9) = .ok .standard ∧
    ∀ (inflation : Float) lines jobs,
      StopsOnly OutOfReach (projectLines .standard inflation lines jobs) := by
  have haccepted : Horizon.ofStored (.real 40.9) = .ok .standard := rfl
  obtain ⟨x, -, -, -, husable, hnothing⟩ :=
    (ofStored_usable_or_nothingLeft (.real 40.9)).2 .standard haccepted
  have hx : 1 ≤ x := by
    by_contra hless
    exact absurd (hnothing (not_le.mp hless)).1 (by decide)
  exact ⟨haccepted, fun inflation => ((husable hx).2.2 inflation).2⟩

/-- Half a year is accepted, and then not even nothing can be projected over it. -/
theorem ofStored_half_year : Horizon.ofStored (.real 0.5) = .ok nothingLeft ∧
    ¬ 1 ≤ nothingLeft.years ∧
    projectLines nothingLeft (0 : Float) [] [] = .error .divisionByZero ∧
    Configuration.horizonYears (.real 0.5) = .error .horizonNotPositive :=
  ⟨rfl, by decide, rfl, rfl⟩

end Renovation.Maintenance
