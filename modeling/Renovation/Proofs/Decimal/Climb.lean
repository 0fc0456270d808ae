import Mathlib.Logic.Function.Iterate
import Renovation.Proofs.Decimal.Nearest

set_option autoImplicit false

/-!
# Adding a step again and again

A step is added to a short number, each sum going to the nearest short number. Right below a limit
the short numbers are `2 ^ k` apart. A step of more than half of that moves all of them on, so that
the limit is reached. A smaller step is lost from the last power of two on at the latest. A step of
exactly half moves odd multiples on to even ones, and those stay.
-/

namespace Renovation.Decimal

def climb (step n : ℕ) : ℕ := nearest (n + step)

theorem short_climb (step n : ℕ) : Short (climb step n) := short_nearest _

theorem le_climb {n : ℕ} (step : ℕ) (h : Short n) : n ≤ climb step n :=
  le_nearest h (Nat.le_add_right n step)

theorem short_iterate {n : ℕ} (step : ℕ) (h : Short n) (i : ℕ) : Short ((climb step)^[i] n) := by
  cases i with
  | zero => exact h
  | succ i =>
    rw [Function.iterate_succ_apply']
    exact short_climb step _

theorem lt_climb {step n : ℕ} (h : Short n) (hstep : 2 ^ excess n < 2 * step) :
    n < climb step n := by
  obtain ⟨m, hm⟩ := h
  rw [mul_comm] at hm
  have hplaces : m < 2 ^ 53 := by
    refine Nat.lt_of_mul_lt_mul_right (a := 2 ^ excess n) ?_
    rw [← hm, ← pow_add]
    exact lt_two_pow_excess n
  have hsucc : n + 2 ^ excess n = (m + 1) * 2 ^ excess n := by rw [add_one_mul, ← hm]
  have hnext : n < n + 2 ^ excess n := Nat.lt_add_of_pos_right (Nat.two_pow_pos _)
  refine hnext.trans_le ?_
  rcases Nat.lt_or_ge step (2 ^ excess n) with hlt | hge
  · have hlong : 2 ^ 52 ≤ m := by
      refine Nat.le_of_mul_le_mul_right (c := 2 ^ excess n) ?_ (Nat.two_pow_pos _)
      rw [← hm, ← pow_add]
      refine two_pow_excess_le (Nat.pos_of_ne_zero fun hzero => ?_)
      rw [hzero] at hlt hstep
      omega
    have hround := nearest_mul_add hlong hplaces hlt
    rw [← hm, if_neg (by omega)] at hround
    rw [climb, hround, hsucc]
  · refine le_nearest ?_ (Nat.add_le_add_left hge n)
    rw [hsucc]
    exact short_mul_two_pow hplaces _

/-! ## The last binade -/

/-- The short numbers right below the limit are `2 ^ k` apart. -/
structure LastBinade (k limit : ℕ) : Prop where
  pos : 0 < k
  begins : 2 ^ (52 + k) < limit
  ends : limit ≤ 2 ^ (53 + k)

section

variable {k limit step n : ℕ}

theorem LastBinade.excess_le (h : LastBinade k limit) (hn : n < limit) : excess n ≤ k :=
  excess_le_iff.mpr (hn.trans_le h.ends)

theorem LastBinade.exists_multiple (h : LastBinade k limit) (hshort : Short n) (hn : n < limit)
    (hlow : 2 ^ (52 + k) ≤ n) : ∃ m, 2 ^ 52 ≤ m ∧ m < 2 ^ 53 ∧ n = m * 2 ^ k := by
  have hhigh := hn.trans_le h.ends
  rw [Short, excess_eq hlow hhigh] at hshort
  obtain ⟨m, rfl⟩ := hshort
  rw [mul_comm] at hlow hhigh ⊢
  rw [pow_add] at hlow hhigh
  exact ⟨m, Nat.le_of_mul_le_mul_right hlow (Nat.two_pow_pos k),
    Nat.lt_of_mul_lt_mul_right hhigh, rfl⟩

/-- A step of at most half the distance is lost from an even multiple. -/
theorem climb_mul (hstep : 2 * step < 2 ^ k ∨ 2 * step = 2 ^ k ∧ n % 2 = 0) (hlow : 2 ^ 52 ≤ n)
    (hhigh : n < 2 ^ 53) : climb step (n * 2 ^ k) = n * 2 ^ k := by
  have hpos := Nat.two_pow_pos k
  rw [climb, nearest_mul_add hlow hhigh (by omega), if_pos hstep]

theorem climb_mul_odd (hstep : 2 * step = 2 ^ k) (hodd : n % 2 = 1) (hlow : 2 ^ 52 ≤ n)
    (hhigh : n < 2 ^ 53) : climb step (n * 2 ^ k) = (n + 1) * 2 ^ k := by
  have hpos := Nat.two_pow_pos k
  rw [climb, nearest_mul_add hlow hhigh (by omega), if_neg (by omega)]

theorem add_le_two_pow {i : ℕ} (hshort : Short n) (hn : n < 2 ^ (53 + i)) (hstep : step ≤ 2 ^ i) :
    n + step ≤ 2 ^ (53 + i) := by
  rcases Nat.lt_or_ge n (2 ^ (52 + i)) with hlow | hhigh
  · have hdouble : 2 ^ (53 + i) = 2 * 2 ^ (52 + i) := by rw [← pow_succ', add_right_comm]
    have hsmall : 2 ^ i ≤ 2 ^ (52 + i) := Nat.pow_le_pow_right (by decide) (Nat.le_add_left i 52)
    omega
  · rw [Short, excess_eq hhigh hn] at hshort
    have hplaces : 2 ^ i ∣ 2 ^ (53 + i) := Nat.pow_dvd_pow 2 (Nat.le_add_left i 53)
    have hgap := Nat.le_of_dvd (Nat.sub_pos_of_lt hn) (Nat.dvd_sub hplaces hshort)
    omega

theorem climb_le_two_pow (hk : 0 < k) (hstep : 2 * step ≤ 2 ^ k) (hshort : Short n)
    (hn : n ≤ 2 ^ (52 + k)) : climb step n ≤ 2 ^ (52 + k) := by
  have hpow := pow_add 2 52 k
  rcases hn.lt_or_eq with hlt | heq
  · refine nearest_le (hpow ▸ short_mul_two_pow (by decide) k) ?_
    obtain ⟨i, rfl⟩ := Nat.exists_eq_add_of_lt hk
    rw [zero_add, pow_succ'] at hstep
    rw [zero_add, ← add_assoc, add_right_comm] at hlt ⊢
    exact add_le_two_pow hshort hlt (Nat.le_of_mul_le_mul_left hstep (by decide))
  · rw [heq, hpow]
    exact (climb_mul (hstep.lt_or_eq.imp_right fun h => ⟨h, by decide⟩) le_rfl (by decide)).le

/-! ## Steps that reach the limit -/

/-- A step of more than half the distance, or of exactly half from the last number below the
limit, if that is an odd multiple. -/
def Climbs (k limit step n : ℕ) : Prop :=
  2 ^ k < 2 * step ∨ 2 * step = 2 ^ k ∧ limit ≤ n + 2 ^ k ∧ ∃ m, n = (2 * m + 1) * 2 ^ k

theorem exists_iterate_ge (h : ∀ n < limit, Short n → n < climb step n) (hn : Short n) :
    ∃ i, limit ≤ (climb step)^[i] n := by
  have hgrows (i : ℕ) : limit ≤ (climb step)^[i] n ∨ i ≤ (climb step)^[i] n := by
    induction i with
    | zero => exact .inr (Nat.zero_le _)
    | succ i ih =>
      rw [Function.iterate_succ_apply']
      have hshort := short_iterate step hn i
      rcases Nat.lt_or_ge ((climb step)^[i] n) limit with hlt | hge
      · exact .inr ((ih.resolve_left hlt.not_ge).trans_lt (h _ hlt hshort))
      · exact .inl (hge.trans (le_climb step hshort))
  exact ⟨limit, (hgrows limit).elim id id⟩

theorem Climbs.reaches (hb : LastBinade k limit) (hshort : Short n) (hn : n < limit)
    (h : Climbs k limit step n) : ∃ i, limit ≤ (climb step)^[i] n := by
  rcases h with hlarge | ⟨hhalf, hlast, m, rfl⟩
  · refine exists_iterate_ge (fun n hn hshort => lt_climb hshort ?_) hshort
    exact (Nat.pow_le_pow_right (by decide) (hb.excess_le hn)).trans_lt hlarge
  · have hlow : 2 ^ (52 + k) ≤ (2 * m + 1) * 2 ^ k := by
      have hbegins := hb.begins.trans_le hlast
      rw [pow_add] at hbegins ⊢
      rw [← add_one_mul] at hbegins
      exact Nat.mul_le_mul_right _ (Nat.le_of_lt_succ (Nat.lt_of_mul_lt_mul_right hbegins))
    obtain ⟨m', hlow, hhigh, heq⟩ := hb.exists_multiple hshort hn hlow
    obtain rfl := Nat.eq_of_mul_eq_mul_right (Nat.two_pow_pos k) heq
    refine ⟨1, ?_⟩
    change limit ≤ climb step _
    rw [climb_mul_odd hhalf (by omega) hlow hhigh, add_one_mul]
    exact hlast

/-! ## Steps that are lost -/

/-- A short number below the limit from which the step does not lead to it. -/
structure Settled (k limit step n : ℕ) : Prop where
  short : Short n
  below : n < limit
  held : n ≤ 2 ^ (52 + k) ∨ climb step n = n

theorem Settled.climb (hb : LastBinade k limit) (hstep : 2 * step ≤ 2 ^ k)
    (h : Settled k limit step n) : Settled k limit step (climb step n) := by
  rcases h.held with hlow | hfixed
  · have hnext := climb_le_two_pow hb.pos hstep h.short hlow
    exact ⟨short_climb step n, hnext.trans_lt hb.begins, .inl hnext⟩
  · rwa [hfixed]

theorem Settled.iterate (hb : LastBinade k limit) (hstep : 2 * step ≤ 2 ^ k)
    (h : Settled k limit step n) (i : ℕ) : Settled k limit step ((Decimal.climb step)^[i] n) := by
  induction i with
  | zero => exact h
  | succ i ih =>
    rw [Function.iterate_succ_apply']
    exact ih.climb hb hstep

theorem settled_of_step (hb : LastBinade k limit) (hshort : Short n) (hn : n < limit)
    (hstep : 2 * step < 2 ^ k ∨ 2 * step = 2 ^ k ∧ n / 2 ^ k % 2 = 0) :
    Settled k limit step n := by
  refine ⟨hshort, hn, (Nat.le_total n (2 ^ (52 + k))).imp_right fun hlow => ?_⟩
  obtain ⟨m, hlong, hhigh, rfl⟩ := hb.exists_multiple hshort hn hlow
  rw [Nat.mul_div_cancel _ (Nat.two_pow_pos k)] at hstep
  exact climb_mul hstep hlong hhigh

theorem settled_or_climbs (hb : LastBinade k limit) (hshort : Short n) (hn : n < limit)
    (hstep : 2 * step = 2 ^ k) : Settled k limit step n ∨
      Settled k limit step (Decimal.climb step n) ∨ Climbs k limit step n := by
  rcases Nat.le_total n (2 ^ (52 + k)) with hlow | hlow
  · exact .inl ⟨hshort, hn, .inl hlow⟩
  obtain ⟨m, hlong, hhigh, rfl⟩ := hb.exists_multiple hshort hn hlow
  rcases Nat.mod_two_eq_zero_or_one m with heven | hodd
  · exact .inl ⟨hshort, hn, .inr (climb_mul (.inr ⟨hstep, heven⟩) hlong hhigh)⟩
  refine .inr ?_
  have hnext := climb_mul_odd hstep hodd hlong hhigh
  rcases Nat.lt_or_ge ((m + 1) * 2 ^ k) limit with hlt | hge
  · refine .inl (settled_of_step hb (short_climb step _) (hnext ▸ hlt) (.inr ⟨hstep, ?_⟩))
    rw [hnext, Nat.mul_div_cancel _ (Nat.two_pow_pos k)]
    omega
  · rw [add_one_mul] at hge
    exact .inr (.inr ⟨hstep, hge, m / 2, by congr 1; omega⟩)

theorem iterate_lt_of_not_climbs (hb : LastBinade k limit) (hshort : Short n) (hn : n < limit)
    (h : ¬Climbs k limit step n) (i : ℕ) : (climb step)^[i] n < limit := by
  have hle : 2 * step ≤ 2 ^ k := Nat.le_of_not_lt fun hlt => h (.inl hlt)
  rcases hle.lt_or_eq with hlt | heq
  · exact ((settled_of_step hb hshort hn (.inl hlt)).iterate hb hle i).below
  rcases settled_or_climbs hb hshort hn heq with hsettled | hsettled | hclimbs
  · exact (hsettled.iterate hb hle i).below
  · cases i with
    | zero => exact hn
    | succ i => exact (hsettled.iterate hb hle i).below
  · exact absurd hclimbs h

/-! ## The way to the limit -/

theorem le_rank_iterate {i : ℕ} (hn : Short n)
    (h : ∀ j < i, (climb step)^[j] n < (climb step)^[j + 1] n) :
    i ≤ rank ((climb step)^[i] n) := by
  induction i with
  | zero => exact Nat.zero_le _
  | succ i ih =>
    have hprevious := ih fun j hj => h j (by omega)
    exact hprevious.trans_lt (rank_lt_rank (short_iterate step hn (i + 1)) (h i (by omega)))

theorem exists_first_iterate_ge (hlimit : limit ≤ beyond) (hn : Short n)
    (h : ∃ i, limit ≤ (climb step)^[i] n) :
    ∃ i ≤ 2 ^ 63, limit ≤ (climb step)^[i] n ∧ ∀ j < i, (climb step)^[j] n < limit ∧
      (climb step)^[j] n < (climb step)^[j + 1] n := by
  classical
  have hbelow : ∀ j < Nat.find h, (climb step)^[j] n < limit :=
    fun j hj => Nat.lt_of_not_le (Nat.find_min h hj)
  have hmoves : ∀ j < Nat.find h, (climb step)^[j] n < (climb step)^[j + 1] n := by
    intro j hj
    have hle := le_climb step (short_iterate step hn j)
    rw [Function.iterate_succ_apply']
    refine hle.lt_of_ne fun hfixed => (hbelow j hj).not_ge ?_
    have hreached := Nat.find_spec h
    rw [← Nat.sub_add_cancel hj.le, Function.iterate_add_apply,
      Function.iterate_fixed hfixed.symm] at hreached
    exact hreached
  refine ⟨Nat.find h, ?_, Nat.find_spec h, fun j hj => ⟨hbelow j hj, hmoves j hj⟩⟩
  rcases Nat.eq_zero_or_pos (Nat.find h) with hzero | hpos
  · omega
  · have hrank := le_rank_iterate (i := Nat.find h - 1) hn fun j hj => hmoves j (by omega)
    have hlast := rank_lt ((hbelow (Nat.find h - 1) (by omega)).trans_le hlimit)
    omega

end

end Renovation.Decimal
