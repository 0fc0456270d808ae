import Renovation.Proofs.Decimal.Climb
import Renovation.Proofs.Decimal.Difference
import Renovation.Proofs.Maintenance.Years

set_option autoImplicit false

/-!
# Years on doubles

The years of a job are doubles, and the sum of a year and the cycle is rounded. Right below the end
of the horizon doubles are `spacing` apart, and closer before. A cycle of more than half of that
takes every year on, so that the years end. A smaller one is lost from some year on, and the years
never end. Of a cycle of exactly half the halves go to even multiples of the spacing, so that the
years end only where the first year is the last double below the horizon and an odd multiple.
-/

namespace Renovation.Maintenance

open Decimal Outcome

/-- The years that doubles reach: those of the horizon, as far as there are doubles. -/
def reach (horizon : Horizon) : ℕ := min horizon.years.toNat (twoTo 1024)

/-- How far apart the doubles are right below the last of these years. -/
def spacing (horizon : Horizon) : ℚ := twoTo (Nat.clog 2 (reach horizon)) / twoTo 53

example : spacing Horizon.standard = 1 / 140737488355328 := by decide +kernel

/-- Adding the cycle leads from the first year to the end of the horizon. -/
def Advances (horizon : Horizon) (cycle first : ℚ) : Prop :=
  spacing horizon < 2 * cycle ∨ 2 * cycle = spacing horizon ∧
    reach horizon ≤ first + spacing horizon ∧ ∃ m : ℕ, first = (2 * m + 1) * spacing horizon

/-! ## The horizon in units -/

def limit (horizon : Horizon) : ℕ := reach horizon * unitsOfOne

def zeros (horizon : Horizon) : ℕ := Nat.clog 2 (reach horizon) + 1021

variable {horizon : Horizon}

theorem reach_pos (hh : 1 ≤ horizon.years) : 0 < reach horizon :=
  lt_min (by omega) (twoTo_pos 1024)

theorem limit_eq : limit horizon = min (horizon.years.toNat * unitsOfOne) beyond := by
  have hbeyond : beyond = twoTo 1024 * unitsOfOne := by
    rw [beyond, unitsOfOne, twoTo_eq, twoTo_eq, twoTo_eq, ← pow_add]
  rw [limit, reach, hbeyond, Nat.mul_min_mul_right]

theorem limit_le_beyond : limit horizon ≤ beyond := limit_eq.trans_le (min_le_right _ _)

theorem two_pow_zeros :
    2 ^ (53 + zeros horizon) = 2 ^ Nat.clog 2 (reach horizon) * unitsOfOne := by
  have hplaces : 53 + zeros horizon = Nat.clog 2 (reach horizon) + 1074 := by
    unfold zeros
    omega
  rw [unitsOfOne, twoTo_eq, ← pow_add, hplaces]

theorem lastBinade_limit (hh : 1 ≤ horizon.years) : LastBinade (zeros horizon) (limit horizon) := by
  have hlow : 2 ^ Nat.clog 2 (reach horizon) < 2 * reach horizon := by
    have hreach := reach_pos hh
    rcases Nat.eq_zero_or_pos (Nat.clog 2 (reach horizon)) with hzero | hpos
    · rw [hzero]
      omega
    · have hlast := Nat.pow_lt_of_lt_clog (Nat.sub_one_lt hpos.ne')
      rw [← Nat.sub_add_cancel hpos, pow_succ']
      exact Nat.mul_lt_mul_of_pos_left hlast (by decide)
  refine ⟨Nat.succ_pos _, ?_, ?_⟩
  · have hdouble : 2 ^ (53 + zeros horizon) = 2 * 2 ^ (52 + zeros horizon) := by
      rw [← pow_succ', add_right_comm]
    have hunits := Nat.mul_lt_mul_of_pos_right hlow unitsOfOne_pos
    rw [← two_pow_zeros, mul_assoc, hdouble] at hunits
    exact Nat.lt_of_mul_lt_mul_left hunits
  · rw [two_pow_zeros]
    exact Nat.mul_le_mul_right _ (Nat.le_pow_clog (by decide) _)

theorem spacing_eq : spacing horizon = (2 ^ zeros horizon : ℕ) / unitsOfOne := by
  have hunits : (unitsOfOne : ℚ) ≠ 0 := Nat.cast_ne_zero.mpr unitsOfOne_pos.ne'
  have hplaces : ((twoTo 53 : ℕ) : ℚ) ≠ 0 := Nat.cast_ne_zero.mpr (twoTo_pos 53).ne'
  rw [spacing, div_eq_div_iff hplaces hunits, ← Nat.cast_mul, ← Nat.cast_mul, twoTo_eq, twoTo_eq,
    ← two_pow_zeros, ← pow_add, add_comm]

theorem advances_iff (step n : ℕ) : Advances horizon (step / unitsOfOne) (n / unitsOfOne) ↔
    Climbs (zeros horizon) (limit horizon) step n := by
  have hunits : (0 : ℚ) < unitsOfOne := Nat.cast_pos.mpr unitsOfOne_pos
  have hdouble : 2 * ((step : ℚ) / unitsOfOne) = (2 * step : ℕ) / unitsOfOne := by
    rw [Nat.cast_mul, Nat.cast_ofNat, mul_div_assoc]
  have hlarge : spacing horizon < 2 * (step / unitsOfOne) ↔ 2 ^ zeros horizon < 2 * step := by
    rw [hdouble, spacing_eq, div_lt_div_iff_of_pos_right hunits, Nat.cast_lt]
  have hhalf : 2 * ((step : ℚ) / unitsOfOne) = spacing horizon ↔
      2 * step = 2 ^ zeros horizon := by
    rw [hdouble, spacing_eq, div_left_inj' hunits.ne', Nat.cast_inj]
  have hlast : (reach horizon : ℚ) ≤ n / unitsOfOne + spacing horizon ↔
      limit horizon ≤ n + 2 ^ zeros horizon := by
    rw [spacing_eq, ← add_div, le_div_iff₀ hunits, ← Nat.cast_add, ← Nat.cast_mul, Nat.cast_le,
      limit]
  have hodd (m : ℕ) : (n : ℚ) / unitsOfOne = (2 * m + 1) * spacing horizon ↔
      n = (2 * m + 1) * 2 ^ zeros horizon := by
    rw [spacing_eq, ← mul_div_assoc, div_left_inj' hunits.ne', ← Nat.cast_inj (R := ℚ)]
    push_cast
    rfl
  rw [Advances, Climbs, hlarge, hhalf, hlast, exists_congr hodd]

/-! ## Years in units -/

section

variable {year cycle : Float} {n step : ℕ}

theorem belowWhole_of_holds (hh : 1 ≤ horizon.years) (hyear : Holds year n) :
    Number.belowWhole year horizon.years = true ↔ n < limit horizon := by
  rw [hyear.belowWhole_iff (by omega), limit_eq, lt_min_iff, and_iff_left hyear.lt_beyond]

theorem belowWhole_add (hh : 1 ≤ horizon.years) (hyear : Holds year n) (hcycle : Holds cycle step)
    (hstep : 0 < step) :
    Number.belowWhole (year + cycle) horizon.years = true ↔ climb step n < limit horizon := by
  rcases Nat.lt_or_ge (climb step n) beyond with hlt | hge
  · exact belowWhole_of_holds hh (hyear.add hcycle hstep hlt)
  · rw [(hyear.add_infinite hcycle hstep hge).belowWhole]
    exact iff_of_false Bool.false_ne_true (limit_le_beyond.trans hge).not_gt

theorem below_add (hyear : Holds year n) (hcycle : Holds cycle step) (hstep : 0 < step) :
    Number.below year (year + cycle) = true ↔ n < climb step n := by
  rcases Nat.lt_or_ge (climb step n) beyond with hlt | hge
  · exact hyear.below_iff (hyear.add hcycle hstep hlt)
  · refine iff_of_true ?_ (hyear.lt_beyond.trans_le hge)
    exact hyear.below_infinite (hyear.add_infinite hcycle hstep hge)

theorem holds_iterate (hyear : Holds year n) (hcycle : Holds cycle step) (hstep : 0 < step) {i : ℕ}
    (h : (climb step)^[i] n < beyond) : Holds ((· + cycle)^[i] year) ((climb step)^[i] n) := by
  induction i with
  | zero => exact hyear
  | succ i ih =>
    rw [Function.iterate_succ_apply'] at h ⊢
    rw [Function.iterate_succ_apply']
    have hle := le_climb step (short_iterate step hyear.short i)
    exact (ih (hle.trans_lt h)).add hcycle hstep h

theorem belowWhole_iterate (hh : 1 ≤ horizon.years) (hyear : Holds year n)
    (hcycle : Holds cycle step) (hstep : 0 < step) {i : ℕ}
    (h : ∀ j < i, (climb step)^[j] n < limit horizon) :
    Number.belowWhole ((· + cycle)^[i] year) horizon.years = true ↔
      (climb step)^[i] n < limit horizon := by
  cases i with
  | zero => exact belowWhole_of_holds hh hyear
  | succ i =>
    rw [Function.iterate_succ_apply', Function.iterate_succ_apply']
    have hprevious := (h i (Nat.lt_succ_self i)).trans_le limit_le_beyond
    exact belowWhole_add hh (holds_iterate hyear hcycle hstep hprevious) hcycle hstep

theorem exists_arrives (hh : 1 ≤ horizon.years) (hyear : Holds year n) (hcycle : Holds cycle step)
    (hstep : 0 < step) (h : ∃ i, limit horizon ≤ (climb step)^[i] n) :
    ∃ i ≤ twoTo 63, Arrives horizon cycle year i ∧ ∀ j < i,
      Number.below ((· + cycle)^[j] year) ((· + cycle)^[j + 1] year) = true := by
  obtain ⟨i, hi, hreached, hway⟩ := exists_first_iterate_ge limit_le_beyond hyear.short h
  have hmoves : ∀ j < i,
      Number.below ((· + cycle)^[j] year) ((· + cycle)^[j + 1] year) = true := by
    intro j hj
    obtain ⟨hbelow, hmoves⟩ := hway j hj
    rw [Function.iterate_succ_apply'] at hmoves ⊢
    have hlt := hbelow.trans_le limit_le_beyond
    exact (below_add (holds_iterate hyear hcycle hstep hlt) hcycle hstep).mpr hmoves
  refine ⟨i, hi, ⟨?_, fun j hj => ?_, fun j hj => hmoves j (Nat.lt_of_succ_lt hj)⟩, hmoves⟩
  · rw [← Bool.not_eq_true,
      belowWhole_iterate hh hyear hcycle hstep fun j hj => (hway j hj).1]
    exact hreached.not_gt
  · rw [belowWhole_iterate hh hyear hcycle hstep fun l hl => (hway l (hl.trans hj)).1]
    exact (hway j hj).1

end

/-! ## Jobs -/

theorem isFinite_orZero {stored : Datum} {x : Option Float} (h : readNumber stored = .ok x) :
    Datum.isFinite (Job.read.orZero x) = true := by
  have hzero : Datum.isFinite (0 : Float) = true := holds_zero.isFinite
  obtain ⟨y, hy, h⟩ := bind_eq_ok.mp h
  obtain rfl := Except.ok.inj h
  cases y with
  | none => exact hzero
  | some y =>
    change Datum.isFinite (if Number.isZero y then 0 else y) = true
    split
    · exact hzero
    · exact isFinite_of_number hy

theorem isFinite_of_read {stored : Datum} {job : Job Float} (h : Job.read stored = .ok job) :
    Datum.isFinite job.cycleStart = true ∧ Datum.isFinite job.cycle = true := by
  obtain ⟨line, -, h⟩ := bind_eq_ok.mp h
  obtain ⟨start, hstart, h⟩ := bind_eq_ok.mp h
  obtain ⟨cycle, hcycle, h⟩ := bind_eq_ok.mp h
  obtain rfl := Except.ok.inj h
  exact ⟨isFinite_orZero hstart, isFinite_orZero hcycle⟩

theorem recurs_iff_of_isFinite {job : Job Float} (h : Datum.isFinite job.cycle = true) :
    job.recurs = true ↔ 0 < (Number.ofDouble job.cycle : ℚ) := by
  obtain ⟨z, hz⟩ := exists_holdsInt h
  have hrecurs : job.recurs = !(Number.below job.cycle 0 || Number.isZero job.cycle) := rfl
  rw [hrecurs, Bool.not_eq_true', Bool.or_eq_false_iff, ← Bool.not_eq_true (Number.isZero _),
    hz.isZero_iff]
  rcases holds_or_negative h with ⟨n, hn⟩ | ⟨hnegative, hbelow, -⟩
  · have hnot : Number.below job.cycle 0 = false :=
      Bool.eq_false_iff.mpr ((hn.below_iff holds_zero).not.mpr (Nat.not_lt_zero n))
    have hvalue : (z : ℚ) / unitsOfOne = n / unitsOfOne := hz.value.symm.trans hn.value
    have hunits : (0 : ℚ) < unitsOfOne := Nat.cast_pos.mpr unitsOfOne_pos
    rw [div_left_inj' hunits.ne', ← Int.cast_natCast, Int.cast_inj] at hvalue
    rw [and_iff_right hnot, hn.value, div_pos_iff_of_pos_right hunits, Nat.cast_pos, hvalue]
    omega
  · rw [hbelow]
    exact iff_of_false (fun h => Bool.false_ne_true h.1.symm) hnegative.not_gt

theorem holds_firstYear {job : Job Float} (h : Datum.isFinite job.cycleStart = true) :
    ∃ n, Holds (firstYear job) n ∧
      (n : ℚ) / unitsOfOne = max (Number.ofDouble job.cycleStart) 0 := by
  change ∃ n, Holds (if Number.below job.cycleStart 0 then 0 else job.cycleStart) n ∧ _
  rcases holds_or_negative h with ⟨n, hn⟩ | ⟨hnegative, hbelow, -⟩
  · refine ⟨n, ?_, ?_⟩
    · rw [if_neg ((hn.below_iff holds_zero).not.mpr (Nat.not_lt_zero n))]
      exact hn
    · rw [hn.value, max_eq_left (by positivity)]
  · refine ⟨0, ?_, ?_⟩
    · rw [if_pos hbelow]
      exact holds_zero
    · rw [max_eq_right hnegative.le, Nat.cast_zero, zero_div]

section

variable {α : Type} [Number α]

theorem dueYears_of_not_ends {job : Job α} (h : ¬Ends horizon job) :
    dueYears horizon job = .error .unending := by
  cases hyears : dueYears horizon job with
  | ok years => exact absurd (dueYears_returns_iff.mp ⟨years, hyears⟩) h
  | error fault => rw [stopsOnly_dueYears horizon job fault hyears]

theorem iterate_of_lost {year cycle : α} (h : year + cycle = year) (n : ℕ) :
    (· + cycle)^[n] year = year :=
  Function.iterate_fixed h n

theorem not_ends_of_lost {job : Job α} (hcycle : job.recurs = true)
    (hstart : Number.belowWhole job.cycleStart horizon.years = true)
    (hfirst : Number.belowWhole (firstYear job) horizon.years = true)
    (h : firstYear job + job.cycle = firstYear job) : ¬Ends horizon job := by
  intro hends
  obtain ⟨n, -, harrives⟩ := hends hcycle hstart
  have hreached := harrives.reached
  rw [iterate_of_lost h n, hfirst] at hreached
  cases hreached

end

/-! ## The end of the years -/

def AdvancesIfDue (horizon : Horizon) (job : Job Float) : Prop :=
  0 < (Number.ofDouble job.cycle : ℚ) → (Number.ofDouble job.cycleStart : ℚ) < horizon.years →
    Advances horizon (Number.ofDouble job.cycle) (max (Number.ofDouble job.cycleStart) 0)

section

variable {job : Job Float}

theorem exists_holds (hh : 1 ≤ horizon.years) (hstart : Datum.isFinite job.cycleStart = true)
    (hcycle : Datum.isFinite job.cycle = true) (hpos : 0 < (Number.ofDouble job.cycle : ℚ))
    (hlt : (Number.ofDouble job.cycleStart : ℚ) < horizon.years) :
    ∃ n step, Holds (firstYear job) n ∧ Holds job.cycle step ∧ 0 < step ∧ n < limit horizon ∧
      (Advances horizon (Number.ofDouble job.cycle) (max (Number.ofDouble job.cycleStart) 0) ↔
        Climbs (zeros horizon) (limit horizon) step n) := by
  obtain ⟨n, hfirst, hn⟩ := holds_firstYear hstart
  obtain ⟨step, hstep⟩ := (holds_or_negative hcycle).resolve_right fun h => h.1.not_gt hpos
  refine ⟨n, step, hfirst, hstep, ?_, ?_, ?_⟩
  · rwa [← holds_zero.below_iff hstep, below_zero_iff hcycle]
  · have hhorizon : (0 : ℚ) < horizon.years := Int.cast_pos.mpr (by omega)
    rw [← belowWhole_of_holds hh hfirst, belowWhole_iff hfirst.isFinite, hfirst.value, hn]
    exact max_lt hlt hhorizon
  · rw [← hn, hstep.value]
    exact advances_iff step n

theorem arrives_of_advances (hh : 1 ≤ horizon.years)
    (hstart : Datum.isFinite job.cycleStart = true) (hcycle : Datum.isFinite job.cycle = true)
    (h : AdvancesIfDue horizon job) (hrecurs : job.recurs = true)
    (hdue : Number.belowWhole job.cycleStart horizon.years = true) :
    ∃ i ≤ twoTo 63, Arrives horizon job.cycle (firstYear job) i ∧ ∀ j < i,
      Number.below ((· + job.cycle)^[j] (firstYear job))
        ((· + job.cycle)^[j + 1] (firstYear job)) = true := by
  have hpos := (recurs_iff_of_isFinite hcycle).mp hrecurs
  have hlt := (belowWhole_iff hstart _).mp hdue
  obtain ⟨n, step, hfirst, hstep, hpositive, hn, hclimbs⟩ := exists_holds hh hstart hcycle hpos hlt
  exact exists_arrives hh hfirst hstep hpositive
    ((hclimbs.mp (h hpos hlt)).reaches (lastBinade_limit hh) hfirst.short hn)

theorem dueYears_of_advances (hh : 1 ≤ horizon.years)
    (hstart : Datum.isFinite job.cycleStart = true) (hcycle : Datum.isFinite job.cycle = true)
    (h : AdvancesIfDue horizon job) : ∃ years, dueYears horizon job = .ok years ∧
      ∀ year ∈ years, Number.below year (year + job.cycle) = true := by
  cases hdue : job.recurs && Number.belowWhole job.cycleStart horizon.years with
  | false => exact ⟨[], dueYears_of_never hdue, nofun⟩
  | true =>
    obtain ⟨hrecurs, hbelow⟩ := Bool.and_eq_true_iff.mp hdue
    obtain ⟨i, hi, harrives, hmoves⟩ := arrives_of_advances hh hstart hcycle h hrecurs hbelow
    refine ⟨_, (dueYears_of_due hdue).trans (yearsFrom_eq_ok_iff.mpr ⟨i, hi, harrives, rfl⟩), ?_⟩
    intro year hyear
    obtain ⟨k, hk, rfl⟩ := List.mem_map.mp hyear
    have hmove := hmoves k (List.mem_range.mp hk)
    rwa [Function.iterate_succ_apply'] at hmove

theorem belowWhole_of_not_advances (hh : 1 ≤ horizon.years)
    (hstart : Datum.isFinite job.cycleStart = true) (hcycle : Datum.isFinite job.cycle = true)
    (h : ¬AdvancesIfDue horizon job) (i : ℕ) :
    Number.belowWhole ((· + job.cycle)^[i] (firstYear job)) horizon.years = true := by
  simp only [AdvancesIfDue, Classical.not_imp] at h
  obtain ⟨hpos, hlt, h⟩ := h
  obtain ⟨n, step, hfirst, hstep, hpositive, hn, hclimbs⟩ := exists_holds hh hstart hcycle hpos hlt
  have hbelow := iterate_lt_of_not_climbs (lastBinade_limit hh) hfirst.short hn (hclimbs.not.mp h)
  exact (belowWhole_iterate hh hfirst hstep hpositive fun j _ => hbelow j).mpr (hbelow i)

theorem not_ends_of_not_advances (hh : 1 ≤ horizon.years)
    (hstart : Datum.isFinite job.cycleStart = true) (hcycle : Datum.isFinite job.cycle = true)
    (h : ¬AdvancesIfDue horizon job) : ¬Ends horizon job := by
  intro hends
  have hbelow := belowWhole_of_not_advances hh hstart hcycle h
  simp only [AdvancesIfDue, Classical.not_imp] at h
  obtain ⟨hpos, hlt, -⟩ := h
  obtain ⟨i, -, harrives⟩ :=
    hends ((recurs_iff_of_isFinite hcycle).mpr hpos) ((belowWhole_iff hstart _).mpr hlt)
  exact Bool.false_ne_true (harrives.reached.symm.trans (hbelow i))

/-- The years of a job on doubles end exactly if it advances where it is due. Otherwise no number of
cycles takes them to the end of the horizon. -/
theorem dueYears_ends_iff_advances {stored : Datum} (hh : 1 ≤ horizon.years)
    (hjob : Job.read stored = .ok job) :
    (AdvancesIfDue horizon job → Ends horizon job ∧ ∃ years, dueYears horizon job = .ok years ∧
        ∀ year ∈ years, Number.below year (year + job.cycle) = true) ∧
      (¬AdvancesIfDue horizon job → dueYears horizon job = .error .unending ∧
        ∀ n, Number.belowWhole ((· + job.cycle)^[n] (firstYear job)) horizon.years = true) := by
  obtain ⟨hstart, hcycle⟩ := isFinite_of_read hjob
  constructor
  · intro h
    obtain ⟨years, hyears, hmoves⟩ := dueYears_of_advances hh hstart hcycle h
    exact ⟨dueYears_returns_iff.mp ⟨years, hyears⟩, years, hyears, hmoves⟩
  · intro h
    exact ⟨dueYears_of_not_ends (not_ends_of_not_advances hh hstart hcycle h),
      belowWhole_of_not_advances hh hstart hcycle h⟩

end

/-- The last double below forty is an odd multiple of the spacing, so half of that leads from it to
the end. -/
def lastMoment : Job Float := { cycleStart := 39.99999999999999, cycle := 3.552713678800501e-15 }

theorem dueYears_ends_from_last_double :
    1 ≤ Horizon.standard.years ∧
      Job.read (.record [("cycleStart", .real 39.99999999999999),
        ("cycle", .real 3.552713678800501e-15)]) = .ok lastMoment ∧
      Ends Horizon.standard lastMoment ∧
        ∃ years, dueYears Horizon.standard lastMoment = .ok years ∧
          ∀ year ∈ years, Number.below year (year + lastMoment.cycle) = true := by
  have hread : Job.read (.record [("cycleStart", .real 39.99999999999999),
      ("cycle", .real 3.552713678800501e-15)]) = .ok lastMoment := rfl
  have hadvances : AdvancesIfDue Horizon.standard lastMoment := fun _ _ =>
    .inr ⟨by decide +kernel, by decide +kernel, 2814749767106559, by decide +kernel⟩
  exact ⟨by decide, hread, (dueYears_ends_iff_advances (by decide) hread).1 hadvances⟩

def lostCycle : Job Float := { cycleStart := 39.99999999999999, cycle := 1e-15 }

theorem dueYears_unending_of_lost_cycle :
    Job.read (.record [("cycleStart", .real 39.99999999999999), ("cycle", .real 1e-15)]) =
        .ok lostCycle ∧
      Number.below 0 lostCycle.cycle = true ∧
      Number.belowWhole (firstYear lostCycle) Horizon.standard.years = true ∧
      (∀ n, (· + lostCycle.cycle)^[n] (firstYear lostCycle) = firstYear lostCycle) ∧
      ¬Ends Horizon.standard lostCycle ∧
      dueYears Horizon.standard lostCycle = .error .unending := by
  have hread : Job.read (.record [("cycleStart", .real 39.99999999999999),
      ("cycle", .real 1e-15)]) = .ok lostCycle := rfl
  have hcycle : Number.below 0 lostCycle.cycle = true := by decide +kernel
  have hrecurs : lostCycle.recurs = true := by decide +kernel
  have hstart : Number.belowWhole lostCycle.cycleStart Horizon.standard.years = true := by
    decide +kernel
  have hfirst : Number.belowWhole (firstYear lostCycle) Horizon.standard.years = true := by
    decide +kernel
  have hlost : firstYear lostCycle + lostCycle.cycle = firstYear lostCycle := by decide +kernel
  have hends := not_ends_of_lost hrecurs hstart hfirst hlost
  exact ⟨hread, hcycle, hfirst, iterate_of_lost hlost, hends, dueYears_of_not_ends hends⟩

end Renovation.Maintenance
