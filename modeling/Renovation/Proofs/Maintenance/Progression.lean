import Renovation.Proofs.Exact
import Renovation.Proofs.Maintenance.Years

set_option autoImplicit false

/-!
# Due years without rounding

Over exact numbers the years in which a job is due are an arithmetic progression. It ends after as
many years as cycles are begun between the first year and the horizon, each of its years is due, and
none that is due is missing. A longer horizon only adds years at the end.
-/

namespace Renovation.Maintenance

/-- How many of the years from `first` on, one cycle apart, are below the horizon. -/
def dueCount (horizon : Horizon) (cycle first : ℚ) : ℕ := ⌈(horizon.years - first) / cycle⌉₊

def progression (cycle first : ℚ) (count : ℕ) : List ℚ :=
  (List.range count).map fun k : ℕ => first + k * cycle

variable {horizon : Horizon} {cycle first : ℚ}

/-! ## The progression -/

theorem lt_dueCount_iff (hcycle : 0 < cycle) (k : ℕ) :
    k < dueCount horizon cycle first ↔ first + k * cycle < horizon.years := by
  rw [dueCount, Nat.lt_ceil, lt_div_iff₀ hcycle, lt_sub_iff_add_lt']

theorem dueCount_pos (hcycle : 0 < cycle) (hfirst : first < horizon.years) :
    0 < dueCount horizon cycle first := by
  rw [lt_dueCount_iff hcycle, Nat.cast_zero, zero_mul, add_zero]
  exact hfirst

theorem dueCount_mono {larger : Horizon} (hcycle : 0 < cycle)
    (hle : horizon.years ≤ larger.years) :
    dueCount horizon cycle first ≤ dueCount larger cycle first := by
  refine Nat.ceil_mono (div_le_div_of_nonneg_right ?_ hcycle.le)
  exact sub_le_sub_right (Int.cast_le.mpr hle) first

theorem mem_progression {count : ℕ} {year : ℚ} :
    year ∈ progression cycle first count ↔ ∃ k < count, first + k * cycle = year := by
  simp only [progression, List.mem_map, List.mem_range]

theorem progression_increasing (hcycle : 0 < cycle) (count : ℕ) :
    (progression cycle first count).Pairwise (· < ·) := by
  rw [progression, List.pairwise_map]
  refine List.pairwise_lt_range.imp fun hkl => ?_
  exact add_lt_add_right (mul_lt_mul_of_pos_right (Nat.cast_lt.mpr hkl) hcycle) first

theorem progression_prefix (cycle first : ℚ) {count larger : ℕ} (hle : count ≤ larger) :
    progression cycle first count <+: progression cycle first larger := by
  obtain ⟨more, rfl⟩ := Nat.exists_eq_add_of_le hle
  rw [progression, progression, List.range_add, List.map_append]
  exact List.prefix_append _ _

theorem iterate_add (cycle first : ℚ) (k : ℕ) : (· + cycle)^[k] first = first + k * cycle := by
  rw [add_right_iterate, nsmul_eq_mul]

theorem progression_eq_iterates (cycle first : ℚ) (count : ℕ) :
    progression cycle first count = (List.range count).map fun k => (· + cycle)^[k] first :=
  List.map_congr_left fun k _ => (iterate_add cycle first k).symm

theorem arrives_dueCount (hcycle : 0 < cycle) :
    Arrives horizon cycle first (dueCount horizon cycle first) := by
  refine ⟨?_, ?_, ?_⟩
  · rw [iterate_add]
    exact decide_eq_false ((lt_dueCount_iff hcycle _).not.mp (lt_irrefl _))
  · intro k hk
    rw [iterate_add]
    exact decide_eq_true ((lt_dueCount_iff hcycle k).mp hk)
  · intro k _
    rw [Function.iterate_succ_apply']
    exact decide_eq_true (lt_add_of_pos_right _ hcycle)

/-! ## Due years -/

variable {job : Job ℚ}

theorem recurs_iff : job.recurs = true ↔ 0 < job.cycle := by
  have hnever : job.recurs = !(decide (job.cycle < 0) || job.cycle == 0) := rfl
  rw [hnever, Bool.not_eq_true', Bool.or_eq_false_iff, decide_eq_false_iff_not, beq_eq_false_iff_ne,
    not_lt, ne_comm, lt_iff_le_and_ne]

theorem dueYears_eq_nil (h : job.cycle ≤ 0 ∨ (horizon.years : ℚ) ≤ job.cycleStart) :
    dueYears horizon job = .ok [] := by
  refine dueYears_of_never ?_
  rw [Bool.and_eq_false_iff]
  refine h.imp (fun h => ?_) fun h => decide_eq_false h.not_gt
  rw [← Bool.not_eq_true, recurs_iff]
  exact h.not_gt

theorem dueYears_eq_progression (hcycle : 0 < job.cycle)
    (hstart : job.cycleStart < horizon.years) :
    dueYears horizon job = .ok (progression job.cycle (max job.cycleStart 0)
      (dueCount horizon job.cycle (max job.cycleStart 0))) := by
  have hdue : (job.recurs && Number.belowWhole job.cycleStart horizon.years) = true :=
    Bool.and_eq_true_iff.mpr ⟨recurs_iff.mpr hcycle, decide_eq_true hstart⟩
  rw [dueYears_of_due hdue, firstYear, Exact.greater_eq_max, yearsFrom_eq_ok_iff]
  exact ⟨_, le_rfl, arrives_dueCount hcycle, progression_eq_iterates _ _ _⟩

theorem first_lt (hhorizon : 1 ≤ horizon.years) (hstart : job.cycleStart < horizon.years) :
    max job.cycleStart 0 < horizon.years :=
  max_lt hstart (Int.cast_pos.mpr hhorizon)

theorem dueYears_prefix {larger : Horizon} (hle : horizon.years ≤ larger.years) :
    ∃ years more, dueYears horizon job = .ok years ∧ dueYears larger job = .ok (years ++ more) := by
  rcases le_or_gt job.cycle 0 with hcycle | hcycle
  · exact ⟨[], [], dueYears_eq_nil (.inl hcycle), dueYears_eq_nil (.inl hcycle)⟩
  rcases le_or_gt (horizon.years : ℚ) job.cycleStart with hstart | hstart
  · rcases le_or_gt (larger.years : ℚ) job.cycleStart with hlarger | hlarger
    · exact ⟨[], [], dueYears_eq_nil (.inr hstart), dueYears_eq_nil (.inr hlarger)⟩
    · exact ⟨[], _, dueYears_eq_nil (.inr hstart), dueYears_eq_progression hcycle hlarger⟩
  · obtain ⟨more, hmore⟩ :=
      progression_prefix job.cycle (max job.cycleStart 0) (dueCount_mono hcycle hle)
    refine ⟨_, more, dueYears_eq_progression hcycle hstart, ?_⟩
    rw [hmore]
    exact dueYears_eq_progression hcycle (hstart.trans_le (Int.cast_le.mpr hle))

/-- A job that never recurs or starts beyond the horizon is never due. Every other job is due in the
years of a progression, which the loop reaches the end of, and which is all the due years there are:
they increase, lie from zero up below the horizon, and none is missed. -/
theorem dueYears_exact (horizon : Horizon) (job : Job ℚ) (hhorizon : 1 ≤ horizon.years) :
    (job.cycle ≤ 0 ∨ (horizon.years : ℚ) ≤ job.cycleStart → dueYears horizon job = .ok []) ∧
    (0 < job.cycle → job.cycleStart < horizon.years →
      let first := max job.cycleStart 0
      let count := ⌈(horizon.years - first) / job.cycle⌉₊
      let years := (List.range count).map fun k : ℕ => first + k * job.cycle
      1 ≤ count ∧ Arrives horizon job.cycle first count ∧ dueYears horizon job = .ok years ∧
      years.Pairwise (· < ·) ∧ (∀ year ∈ years, 0 ≤ year ∧ year < horizon.years) ∧
      ∀ k : ℕ, first + k * job.cycle < horizon.years → first + k * job.cycle ∈ years) ∧
    ∀ larger : Horizon, horizon.years ≤ larger.years → ∃ years more,
      dueYears horizon job = .ok years ∧ dueYears larger job = .ok (years ++ more) := by
  refine ⟨dueYears_eq_nil, ?_, fun larger hle => dueYears_prefix hle⟩
  intro hcycle hstart first count years
  have hcount (k : ℕ) : k < count ↔ first + k * job.cycle < horizon.years :=
    lt_dueCount_iff hcycle k
  refine ⟨dueCount_pos hcycle (first_lt hhorizon hstart), arrives_dueCount hcycle,
    dueYears_eq_progression hcycle hstart, progression_increasing hcycle count, ?_, ?_⟩
  · intro year hyear
    obtain ⟨k, hk, rfl⟩ := mem_progression.mp hyear
    have hfirst : 0 ≤ first := le_max_right _ _
    exact ⟨by positivity, (hcount k).mp hk⟩
  · intro k hk
    exact mem_progression.mpr ⟨k, (hcount k).mpr hk, rfl⟩

theorem dueYears_every_thirty_months :
    let job : Job ℚ := { cycleStart := -3, cycle := 5 / 2 }
    dueYears ⟨10⟩ job = .ok [0, 5 / 2, 5, 15 / 2] ∧
      ∃ more, dueYears ⟨11⟩ job = .ok ([0, 5 / 2, 5, 15 / 2] ++ more) := by
  intro job
  obtain ⟨-, hdue, hlarger⟩ := dueYears_exact ⟨10⟩ job (by decide)
  obtain ⟨-, -, hyears, -⟩ := hdue (by decide +kernel) (by decide +kernel)
  obtain ⟨years, more, h, hmore⟩ := hlarger ⟨11⟩ (by decide)
  have heq : dueYears ⟨10⟩ job = .ok [0, 5 / 2, 5, 15 / 2] := by
    rw [hyears]
    exact congrArg Except.ok (by decide +kernel)
  rw [h] at heq
  cases heq
  exact ⟨h, more, hmore⟩

end Renovation.Maintenance
