import Mathlib.Algebra.Field.GeomSum
import Mathlib.Algebra.Order.BigOperators.Group.List
import Mathlib.Data.Rat.Cast.Order
import Renovation.Proofs.Exact.Cost
import Renovation.Proofs.Maintenance.Matching
import Renovation.Proofs.Maintenance.Progression

set_option autoImplicit false

/-!
# What a job comes to

Over exact numbers the total of a job is its price times the sum of the powers of the growth factor
in the due years. In whole years these powers are a geometric series, counted from year zero and not
from the start of the job. Without inflation each occurrence costs the price, and a cycle that
divides the horizon is spread over it as over itself.

Powers are taken from a function, of which only those laws are asked that a statement needs.
-/

namespace Renovation.Maintenance

open Outcome

variable {horizon : Horizon} {line : LineResult ℚ} {job : Job ℚ} {inflation : ℚ}
  {power : ℚ → ℚ → Except Fault (Cost ℚ)}

theorem growthFactor_eq (inflation : ℚ) : growthFactor inflation = 1 + inflation / 100 := by
  simp [growthFactor, Number.one, Number.fraction, Number.hundred, Number.ofNat]

theorem growthFactor_zero : growthFactor (0 : ℚ) = 1 := by
  rw [growthFactor_eq, zero_div, add_zero]

/-! ## Real powers -/

theorem occurrences_of_real {price growth : ℚ} {years : List ℚ} {factor : ℚ → ℚ}
    (real : ∀ year ∈ years, power growth year = .ok (.real (factor year))) :
    @occurrences ℚ (Exact.withPowers power) price growth years =
      .ok (years.map fun year => ⟨year, .real (price * factor year)⟩) := by
  unfold occurrences
  rw [mapM_eq_ok_iff, List.forall₂_map_right_iff, List.forall₂_same]
  intro year hyear
  change (power growth year >>= fun cost => _) = _
  rw [real year hyear]
  rfl

theorem sum_real (xs : List ℚ) : Cost.sum (xs.map Cost.real) = .real xs.sum := by
  rw [Cost.sum_eq]
  induction xs with
  | nil => rfl
  | cons x rest ih => rw [List.map_cons, List.sum_cons, ih, List.sum_cons, Cost.real_add_real]

theorem share_of_real (hyears : horizon.years ≠ 0) {found : List (Occurrence ℚ)} {total : ℚ}
    (htotal : Cost.sum (found.map (·.cost)) = .real total) :
    @share ℚ (Exact.withPowers power) horizon found = .ok (.real (total / horizon.years)) := by
  unfold share
  cases hfound : found.isEmpty with
  | false =>
    rw [if_neg Bool.false_ne_true, htotal, spread_eq_ok_iff]
    exact ⟨hyears, _, rfl, rfl⟩
  | true =>
    rw [List.isEmpty_iff.mp hfound] at htotal
    cases htotal
    rw [if_pos rfl, spreadNothing, if_neg (by simpa using hyears)]
    exact congrArg (fun x => Except.ok (Cost.real x)) (zero_div _).symm

theorem project_of_real {years : List ℚ} {factor : ℚ → ℚ} (valid : line.isValid = true)
    (hyears : horizon.years ≠ 0) (due : dueYears horizon job = .ok years)
    (real : ∀ year ∈ years, power (growthFactor inflation) year = .ok (.real (factor year))) :
    ∃ part, @project ℚ (Exact.withPowers power) horizon inflation line job = .ok part ∧
      part.total = .real (line.total * (years.map factor).sum) ∧
      part.perYear = .real (line.total * (years.map factor).sum / horizon.years) := by
  let _ := Exact.withPowers power
  let found : List (Occurrence ℚ) :=
    years.map fun year => ⟨year, .real (line.total * factor year)⟩
  have hcosts : Cost.sum (found.map (·.cost)) = .real (line.total * (years.map factor).sum) := by
    rw [← List.sum_map_mul_left, ← sum_real, List.map_map, List.map_map]
    rfl
  refine ⟨⟨.real _, .real _, found, []⟩, ?_, rfl, rfl⟩
  rw [project_of_valid horizon inflation job valid, due, ok_bind, occurrences_of_real real, ok_bind,
    share_of_real hyears hcosts, ok_bind, hcosts]
  rfl

/-! ## Whole years -/

theorem sum_powers (growth : ℚ) (first cycle count : ℕ) :
    ((progression cycle first count).map fun year => growth ^ ⌊year⌋₊).sum =
      ∑ k ∈ Finset.range count, growth ^ (first + k * cycle) := by
  rw [progression, List.map_map]
  change ((List.range count).map _).sum = ((List.range count).map _).sum
  refine congrArg List.sum (List.map_congr_left fun k _ => ?_)
  rw [Function.comp_apply, ← Nat.cast_mul, ← Nat.cast_add, Nat.floor_natCast]

theorem series_mul (growth : ℚ) (first cycle count : ℕ) :
    (∑ k ∈ Finset.range count, growth ^ (first + k * cycle)) * (growth ^ cycle - 1) =
      growth ^ first * (growth ^ (count * cycle) - 1) := by
  have hterm (k : ℕ) : growth ^ (first + k * cycle) = growth ^ first * (growth ^ cycle) ^ k := by
    rw [pow_add, mul_comm k cycle, pow_mul]
  simp only [hterm]
  rw [← Finset.mul_sum, mul_assoc, geom_sum_mul, ← pow_mul, mul_comm cycle count]

/-- A job in whole years comes to the price times a geometric series, whatever the growth factor is:
above or below one, zero or negative. Without inflation it comes to the price for each occurrence,
and the yearly cost comes to the total over the horizon. -/
theorem project_compounds (power : ℚ → ℚ → Except Fault (Cost ℚ))
    (whole : ∀ (base : ℚ) (years : ℕ), power base years = .ok (.real (base ^ years)))
    (horizon : Horizon) (inflation : ℚ) (line : LineResult ℚ) (job : Job ℚ) (start : ℤ) (cycle : ℕ)
    (valid : line.isValid = true) (starts : job.cycleStart = start) (recurs : job.cycle = cycle)
    (positive : 1 ≤ cycle) (due : max start 0 < horizon.years) :
    let growth := 1 + inflation / 100
    let first := (max start 0).toNat
    let count := ⌈((horizon.years : ℚ) - first) / cycle⌉₊
    ∃ part total perYear,
      @project ℚ (Exact.withPowers power) horizon inflation line job = .ok part ∧
      part.total = .real total ∧ part.perYear = .real perYear ∧
      total = line.total * ∑ k ∈ Finset.range count, growth ^ (first + k * cycle) ∧
      total * (growth ^ cycle - 1) = line.total * growth ^ first * (growth ^ (count * cycle) - 1) ∧
      (inflation = 0 → total = count * line.total) ∧ perYear * horizon.years = total := by
  intro growth first count
  have hyears : horizon.years ≠ 0 := ((le_max_right start 0).trans_lt due).ne'
  have hfirst : max job.cycleStart 0 = first := by
    rw [starts, ← Int.cast_zero, ← Int.cast_max, ← Int.cast_natCast first,
      Int.toNat_of_nonneg (le_max_right start 0)]
  have hcycle : 0 < job.cycle := by
    rw [recurs]
    exact Nat.cast_pos.mpr positive
  have hstart : job.cycleStart < horizon.years := by
    rw [starts]
    exact Int.cast_lt.mpr ((le_max_left start 0).trans_lt due)
  have hdue : dueYears horizon job = .ok (progression cycle first count) := by
    rw [dueYears_eq_progression hcycle hstart, hfirst, recurs]
    rfl
  have hreal : ∀ year ∈ progression (cycle : ℚ) first count,
      power (growthFactor inflation) year = .ok (.real (growth ^ ⌊year⌋₊)) := by
    intro year hyear
    obtain ⟨k, -, rfl⟩ := mem_progression.mp hyear
    rw [growthFactor_eq, ← Nat.cast_mul, ← Nat.cast_add, Nat.floor_natCast]
    exact whole _ _
  obtain ⟨part, hpart, htotal, hperYear⟩ := project_of_real valid hyears hdue hreal
  rw [sum_powers] at htotal hperYear
  refine ⟨part, _, _, hpart, htotal, hperYear, rfl, ?_, ?_, ?_⟩
  · rw [mul_assoc, series_mul, mul_assoc]
  · intro hzero
    have hgrowth : growth = 1 := by
      change 1 + inflation / 100 = 1
      rw [hzero, zero_div, add_zero]
    simp only [hgrowth, one_pow, Finset.sum_const, Finset.card_range, nsmul_eq_mul, mul_one]
    exact mul_comm _ _
  · exact div_mul_cancel₀ _ (Int.cast_ne_zero.mpr hyears)

theorem project_compounds_shrinking :
    let _ : Growth ℚ := Exact.withPowers Exact.wholePower
    let line : LineResult ℚ :=
      { name := "Ketel", unitPrice := 100, quantity := 1, total := 100, unit := .text "st" }
    let job : Job ℚ := { name := "Ketel", cycleStart := 1, cycle := 2 }
    ∃ part total, project ⟨6⟩ (-150) line job = .ok part ∧ part.total = .real total ∧
      total = -525 / 8 ∧ total * ((-1 / 2) ^ 2 - 1) = 100 * (-1 / 2) * ((-1 / 2) ^ 6 - 1) := by
  intro _ line job
  obtain ⟨part, total, _, hpart, htotal, _, hsum, hseries, _, _⟩ :=
    project_compounds Exact.wholePower Exact.wholePower_natCast ⟨6⟩ (-150) line job 1 2 rfl
      (by decide +kernel) (by decide +kernel) (by decide) (by decide)
  refine ⟨part, total, hpart, htotal, ?_, ?_⟩
  · rw [hsum]
    decide +kernel
  · have hcount : ⌈(((6 : ℤ) : ℚ) - ((max 1 0 : ℤ).toNat : ℕ)) / ((2 : ℕ) : ℚ)⌉₊ = 3 := by
      decide +kernel
    dsimp only at hseries
    rw [hcount] at hseries
    norm_num at hseries ⊢
    exact hseries

/-! ## A cycle that divides the horizon -/

theorem dueCount_of_divides {cycle first : ℚ} {k : ℕ} (hcycle : 0 < cycle) (hfirst : 0 ≤ first)
    (hearly : first < cycle) (hdivides : (horizon.years : ℚ) = k * cycle) :
    dueCount horizon cycle first = k := by
  refine le_antisymm ?_ ?_
  · rw [dueCount, Nat.ceil_le, div_le_iff₀ hcycle, hdivides]
    exact sub_le_self _ hfirst
  · cases k with
    | zero => exact Nat.zero_le _
    | succ j =>
      refine (lt_dueCount_iff hcycle j).mpr ?_
      rw [hdivides, Nat.cast_add_one, add_one_mul, add_comm]
      exact add_lt_add_right hearly _

theorem sum_ones (cycle first : ℚ) (count : ℕ) :
    ((progression cycle first count).map fun _ => (1 : ℚ)).sum = count := by
  rw [List.map_const', List.sum_replicate, nsmul_one, progression, List.length_map,
    List.length_range]

/-- Without inflation the yearly cost over the horizon is the cost spread over the cycle, for every
job whose cycle divides the horizon and that starts in the first cycle, or before year zero. -/
theorem project_perYear_eq_yearlyCost (power : ℚ → ℚ → Except Fault (Cost ℚ))
    (ones : ∀ year, power 1 year = .ok (.real 1)) (horizon : Horizon) (line : LineResult ℚ)
    (job : Job ℚ) (k : ℤ) (valid : line.isValid = true) (positive : 0 < horizon.years)
    (recurs : 0 < job.cycle) (divides : (horizon.years : ℚ) = k * job.cycle)
    (early : job.cycleStart < job.cycle) :
    ∃ part, @project ℚ (Exact.withPowers power) horizon 0 line job = .ok part ∧
      part.perYear = .real (@yearlyCost ℚ (Exact.withPowers power) line job) := by
  let _ := Exact.withPowers power
  have hyears : (0 : ℚ) < horizon.years := Int.cast_pos.mpr positive
  have hk : 0 < k := by
    rw [divides] at hyears
    exact Int.cast_pos.mp (pos_of_mul_pos_left hyears recurs.le)
  lift k to ℕ using hk.le
  rw [Int.cast_natCast] at divides
  have hstart : job.cycleStart < horizon.years := by
    refine early.trans_le ?_
    rw [divides]
    exact le_mul_of_one_le_left recurs.le (Nat.one_le_cast.mpr (Int.natCast_pos.mp hk))
  have hdue := dueYears_eq_progression recurs hstart
  rw [dueCount_of_divides recurs (le_max_right _ _) (max_lt early recurs) divides] at hdue
  have hones : ∀ year ∈ progression job.cycle (max job.cycleStart 0) k,
      power (growthFactor 0) year = .ok (.real 1) := by
    intro year _
    rw [growthFactor_zero]
    exact ones year
  obtain ⟨part, hpart, -, hperYear⟩ := project_of_real valid positive.ne' hdue hones
  have hcost : yearlyCost line job = line.total / job.cycle := if_pos (recurs_iff.mpr recurs)
  refine ⟨part, hpart, ?_⟩
  rw [hperYear, hcost, sum_ones, divides, mul_comm (k : ℚ),
    mul_div_mul_right _ _ (Nat.cast_ne_zero.mpr (Int.natCast_pos.mp hk).ne')]

theorem project_perYear_thirty_months :
    let _ : Growth ℚ := Exact.withPowers Exact.wholePower
    let line : LineResult ℚ :=
      { name := "Ketel", unitPrice := 120, quantity := 1, total := 120, unit := .text "st" }
    let job : Job ℚ := { name := "Ketel", cycleStart := -3, cycle := 5 / 2 }
    ∃ part, project ⟨10⟩ 0 line job = .ok part ∧ part.perYear = .real (yearlyCost line job) ∧
      yearlyCost line job = 48 := by
  intro _ line job
  have hones (year : ℚ) : Exact.wholePower 1 year = .ok (.real 1) := by
    rw [Exact.wholePower, one_zpow]
  obtain ⟨part, hpart, hperYear⟩ := project_perYear_eq_yearlyCost Exact.wholePower hones ⟨10⟩ line
    job 4 rfl (by decide) (by decide +kernel) (by decide +kernel) (by decide +kernel)
  exact ⟨part, hpart, hperYear, by decide +kernel⟩

end Renovation.Maintenance
