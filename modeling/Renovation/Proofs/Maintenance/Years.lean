import Mathlib.Logic.Function.Iterate
import Renovation.Maintenance.Recurrence
import Renovation.Proofs.Outcome

set_option autoImplicit false

/-!
# The years of a job

Whatever numbers are calculated with, the years in which a job is due are its first year and what
comes of adding the cycle again and again. They can be listed exactly if these sums reach the
horizon and each below it moves on from the one before; a cycle that is lost in rounding never gets
there.
-/

namespace Renovation.Maintenance

open Outcome

variable {α : Type} [Number α]

/-- The `n`-th year from `first` on, one cycle apart, is the first that is not below the horizon. -/
structure Arrives (horizon : Horizon) (cycle first : α) (n : Nat) : Prop where
  reached : Number.belowWhole ((· + cycle)^[n] first) horizon.years = false
  below : ∀ k < n, Number.belowWhole ((· + cycle)^[k] first) horizon.years = true
  moves : ∀ k, k + 1 < n →
    Number.below ((· + cycle)^[k] first) ((· + cycle)^[k + 1] first) = true

theorem arrives_zero_iff {horizon : Horizon} {cycle first : α} :
    Arrives horizon cycle first 0 ↔ Number.belowWhole first horizon.years = false :=
  ⟨fun h => h.reached, fun h => ⟨h, by simp, by simp⟩⟩

theorem lost_eq_false_iff {horizon : Horizon} {year next : α} :
    lost horizon year next = false ↔
      (Number.belowWhole next horizon.years = true → Number.below year next = true) := by
  rw [lost, Bool.and_eq_false_iff, Bool.not_eq_false', ← Bool.not_eq_true, imp_iff_not_or]

theorem arrives_succ_iff {horizon : Horizon} {cycle first : α} {n : Nat} :
    Arrives horizon cycle first (n + 1) ↔ Number.belowWhole first horizon.years = true ∧
      lost horizon first (first + cycle) = false ∧ Arrives horizon cycle (first + cycle) n := by
  rw [lost_eq_false_iff]
  constructor
  · intro h
    refine ⟨h.below 0 (by omega), fun hnext => h.moves 0 ?_, h.reached, ?_, ?_⟩
    · rcases Nat.eq_zero_or_pos n with rfl | hn
      · exact absurd (h.reached.symm.trans hnext) Bool.false_ne_true
      · omega
    · intro k hk
      exact h.below (k + 1) (by omega)
    · intro k hk
      exact h.moves (k + 1) (by omega)
  · rintro ⟨hb, hm, h⟩
    refine ⟨h.reached, ?_, ?_⟩
    · intro k hk
      cases k with
      | zero => exact hb
      | succ k => exact h.below k (by omega)
    · intro k hk
      cases k with
      | zero => exact hm (h.below 0 (by omega))
      | succ k => exact h.moves k (by omega)

theorem Arrives.eq_zero {horizon : Horizon} {cycle first : α} {n : Nat}
    (h : Arrives horizon cycle first n) (hb : Number.belowWhole first horizon.years = false) :
    n = 0 := by
  cases n with
  | zero => rfl
  | succ n =>
    have hf := (arrives_succ_iff.mp h).1
    rw [hb] at hf
    cases hf

theorem range_map_iterate (cycle first : α) (n : Nat) :
    ((List.range (n + 1)).map fun k => (· + cycle)^[k] first) =
      first :: (List.range n).map fun k => (· + cycle)^[k] (first + cycle) := by
  rw [List.range_succ_eq_map, List.map_cons, List.map_map]
  rfl

theorem yearsFrom_of_reached {horizon : Horizon} {cycle first : α} (limit : Nat)
    (h : Number.belowWhole first horizon.years = false) :
    yearsFrom horizon cycle limit first = .ok [] := by
  cases limit <;> (unfold yearsFrom; rw [h]; rfl)

theorem yearsFrom_reached_iff {horizon : Horizon} {cycle first : α} (limit : Nat) {years : List α}
    (h : Number.belowWhole first horizon.years = false) :
    yearsFrom horizon cycle limit first = .ok years ↔
      ∃ n ≤ limit, Arrives horizon cycle first n ∧
        years = (List.range n).map fun k => (· + cycle)^[k] first := by
  rw [yearsFrom_of_reached limit h, Except.ok.injEq]
  constructor
  · rintro rfl
    exact ⟨0, Nat.zero_le _, arrives_zero_iff.mpr h, rfl⟩
  · rintro ⟨n, _, ha, rfl⟩
    rw [ha.eq_zero h]
    rfl

theorem yearsFrom_zero {horizon : Horizon} {cycle first : α}
    (h : Number.belowWhole first horizon.years = true) :
    yearsFrom horizon cycle 0 first = .error .unending := by
  unfold yearsFrom
  rw [if_pos h]

theorem yearsFrom_succ {horizon : Horizon} {cycle first : α} (limit : Nat)
    (h : Number.belowWhole first horizon.years = true) :
    yearsFrom horizon cycle (limit + 1) first =
      if lost horizon first (first + cycle) then .error .unending
      else yearsFrom horizon cycle limit (first + cycle) >>= fun years => .ok (first :: years) := by
  conv_lhs => unfold yearsFrom
  rw [if_pos h]
  rfl

theorem yearsFrom_eq_ok_iff {horizon : Horizon} {cycle first : α} {limit : Nat} {years : List α} :
    yearsFrom horizon cycle limit first = .ok years ↔
      ∃ n ≤ limit, Arrives horizon cycle first n ∧
        years = (List.range n).map fun k => (· + cycle)^[k] first := by
  -- Along the years the limit shrinks and the first year moves; a year at the horizon ends both.
  induction limit generalizing first years with
  | zero =>
    cases hb : Number.belowWhole first horizon.years with
    | false => exact yearsFrom_reached_iff 0 hb
    | true =>
      rw [yearsFrom_zero hb]
      constructor
      · nofun
      · rintro ⟨n, hn, h, _⟩
        cases Nat.le_zero.mp hn
        rw [arrives_zero_iff, hb] at h
        cases h
  | succ limit ih =>
    cases hb : Number.belowWhole first horizon.years with
    | false => exact yearsFrom_reached_iff (limit + 1) hb
    | true =>
      rw [yearsFrom_succ limit hb]
      constructor
      · intro h
        split at h
        case isTrue => cases h
        case isFalse hm =>
          rw [Bool.not_eq_true] at hm
          obtain ⟨rest, hrest, h⟩ := bind_eq_ok.mp h
          obtain ⟨n, hn, ha, rfl⟩ := ih.mp hrest
          refine ⟨n + 1, Nat.succ_le_succ hn, arrives_succ_iff.mpr ⟨hb, hm, ha⟩, ?_⟩
          rw [range_map_iterate]
          exact (Except.ok.inj h).symm
      · rintro ⟨n, hn, h, rfl⟩
        cases n with
        | zero =>
          rw [arrives_zero_iff, hb] at h
          cases h
        | succ n =>
          obtain ⟨_, hm, ha⟩ := arrives_succ_iff.mp h
          have hrest := ih.mpr ⟨n, Nat.le_of_succ_le_succ hn, ha, rfl⟩
          rw [if_neg (Bool.not_eq_true _ ▸ hm), hrest, ok_bind, range_map_iterate]

theorem stopsOnly_yearsFrom (horizon : Horizon) (cycle : α) (limit : Nat) (year : α) :
    StopsOnly (· = Fault.unending) (yearsFrom horizon cycle limit year) := by
  induction limit generalizing year with
  | zero => exact .ite (.error rfl) (.ok _)
  | succ limit ih => exact .ite (.ite (.error rfl) ((ih _).bind fun _ _ => .ok _)) (.ok _)

/-! ## Due years -/

/-- Adding the cycle brings the years of a job to the horizon, in no more steps than there is room
for. A job that is never due has nothing to add. -/
def Ends (horizon : Horizon) (job : Job α) : Prop :=
  job.recurs = true → Number.belowWhole job.cycleStart horizon.years = true →
    ∃ n ≤ Number.stepsBelow (firstYear job) job.cycle horizon.years,
      Arrives horizon job.cycle (firstYear job) n

theorem dueYears_of_never {horizon : Horizon} {job : Job α}
    (h : (job.recurs && Number.belowWhole job.cycleStart horizon.years) = false) :
    dueYears horizon job = .ok [] := by
  unfold dueYears
  rw [← Bool.not_and, h]
  rfl

theorem dueYears_of_due {horizon : Horizon} {job : Job α}
    (h : (job.recurs && Number.belowWhole job.cycleStart horizon.years) = true) :
    dueYears horizon job = yearsFrom horizon job.cycle
      (Number.stepsBelow (firstYear job) job.cycle horizon.years) (firstYear job) := by
  unfold dueYears
  rw [← Bool.not_and, h]
  rfl

theorem dueYears_returns_iff {horizon : Horizon} {job : Job α} :
    (∃ years, dueYears horizon job = .ok years) ↔ Ends horizon job := by
  unfold Ends
  rw [← and_imp, ← Bool.and_eq_true]
  cases h : job.recurs && Number.belowWhole job.cycleStart horizon.years with
  | false =>
    rw [dueYears_of_never h]
    exact ⟨fun _ => nofun, fun _ => ⟨[], rfl⟩⟩
  | true =>
    simp only [dueYears_of_due h, yearsFrom_eq_ok_iff]
    constructor
    · rintro ⟨_, n, hn, ha, _⟩ _
      exact ⟨n, hn, ha⟩
    · intro hends
      obtain ⟨n, hn, ha⟩ := hends trivial
      exact ⟨_, n, hn, ha, rfl⟩

theorem stopsOnly_dueYears (horizon : Horizon) (job : Job α) :
    StopsOnly (· = Fault.unending) (dueYears horizon job) :=
  .ite (.ok _) (stopsOnly_yearsFrom horizon job.cycle _ _)

theorem dueYears_below {horizon : Horizon} {job : Job α} {years : List α}
    (h : dueYears horizon job = .ok years) :
    ∀ year ∈ years, Number.belowWhole year horizon.years = true := by
  cases hd : job.recurs && Number.belowWhole job.cycleStart horizon.years with
  | false =>
    rw [dueYears_of_never hd] at h
    cases h
    nofun
  | true =>
    rw [dueYears_of_due hd, yearsFrom_eq_ok_iff] at h
    obtain ⟨n, _, ha, rfl⟩ := h
    intro year hyear
    obtain ⟨k, hk, rfl⟩ := List.mem_map.mp hyear
    exact ha.below k (List.mem_range.mp hk)

end Renovation.Maintenance
