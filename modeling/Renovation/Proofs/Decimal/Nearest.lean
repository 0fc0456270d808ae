import Mathlib.Data.Nat.Log
import Mathlib.Tactic.Linarith
import Mathlib.Tactic.Ring
import Renovation.Decimal.Power

set_option autoImplicit false

/-!
# Fifty-three binary places

A double from zero up, counted in units of the smallest one, is a number of at most fifty-three
binary places followed by zeros. `nearest` takes a number to the nearest such number, and of two
that are equally near to the even one. It keeps order, and it leaves these numbers as they are.

`rank` numbers them from zero up.
-/

namespace Renovation.Decimal

/-! ## Halves to even -/

/-- A number divided by `2 ^ k` and rounded, a half to the even neighbour. -/
def halfEven (n k : ℕ) : ℕ :=
  if 2 * (n % 2 ^ k) < 2 ^ k ∨ 2 * (n % 2 ^ k) = 2 ^ k ∧ n / 2 ^ k % 2 = 0 then n / 2 ^ k
  else n / 2 ^ k + 1

theorem div_le_halfEven (n k : ℕ) : n / 2 ^ k ≤ halfEven n k := by
  unfold halfEven
  split <;> omega

theorem halfEven_le_div_succ (n k : ℕ) : halfEven n k ≤ n / 2 ^ k + 1 := by
  unfold halfEven
  split <;> omega

theorem halfEven_le {n k t : ℕ} (h : n ≤ t * 2 ^ k) : halfEven n k ≤ t := by
  have hq : n / 2 ^ k ≤ t := Nat.div_le_of_le_mul (by rwa [mul_comm])
  rcases hq.lt_or_eq with hlt | heq
  · exact (halfEven_le_div_succ n k).trans hlt
  · have hn : n = t * 2 ^ k := le_antisymm h (heq ▸ Nat.div_mul_le_self n (2 ^ k))
    have hmod : n % 2 ^ k = 0 := by rw [hn, Nat.mul_mod_left]
    rw [halfEven, if_pos (.inl (by rw [hmod, mul_zero]; exact Nat.two_pow_pos k)), heq]

theorem le_halfEven {n k t : ℕ} (h : t * 2 ^ k ≤ n) : t ≤ halfEven n k :=
  ((Nat.le_div_iff_mul_le (Nat.two_pow_pos k)).mpr h).trans (div_le_halfEven n k)

theorem halfEven_mono {n m : ℕ} (h : n ≤ m) (k : ℕ) : halfEven n k ≤ halfEven m k := by
  rcases (Nat.div_le_div_right (c := 2 ^ k) h).lt_or_eq with hlt | heq
  · exact (halfEven_le_div_succ n k).trans (hlt.trans_le (div_le_halfEven m k))
  · -- the quotients are the same, and the smaller rest goes up only if the larger one does
    have hn := Nat.div_add_mod n (2 ^ k)
    have hm := Nat.div_add_mod m (2 ^ k)
    unfold halfEven
    rw [heq] at hn ⊢
    split
    · split <;> omega
    · rw [if_neg]
      omega

theorem halfEven_mul_two_pow (n k p : ℕ) : halfEven (n * 2 ^ p) (k + p) = halfEven n k := by
  have hdiv : n * 2 ^ p / 2 ^ (k + p) = n / 2 ^ k := by
    rw [pow_add, Nat.mul_div_mul_right _ _ (Nat.two_pow_pos p)]
  have hmod : n * 2 ^ p % 2 ^ (k + p) = n % 2 ^ k * 2 ^ p := by
    rw [pow_add, Nat.mul_mod_mul_right]
  have hpos := Nat.two_pow_pos p
  unfold halfEven
  rw [hdiv, hmod, pow_add, ← mul_assoc]
  simp only [Nat.mul_lt_mul_right hpos, Nat.mul_left_inj hpos.ne']

theorem halfEven_mul_add {m b k : ℕ} (hb : b < 2 ^ k) : halfEven (m * 2 ^ k + b) k =
    if 2 * b < 2 ^ k ∨ 2 * b = 2 ^ k ∧ m % 2 = 0 then m else m + 1 := by
  have hdiv : (m * 2 ^ k + b) / 2 ^ k = m := by
    rw [mul_comm, Nat.mul_add_div (Nat.two_pow_pos k), Nat.div_eq_of_lt hb, add_zero]
  have hmod : (m * 2 ^ k + b) % 2 ^ k = b := by
    rw [mul_comm, Nat.mul_add_mod, Nat.mod_eq_of_lt hb]
  rw [halfEven, hdiv, hmod]

/-! ## Short numbers -/

/-- The binary places of a number beyond fifty-three. -/
def excess (n : ℕ) : ℕ := n.log2 - 52

/-- At most fifty-three binary places, followed by zeros. -/
def Short (n : ℕ) : Prop := 2 ^ excess n ∣ n

theorem lt_two_pow_excess (n : ℕ) : n < 2 ^ (53 + excess n) :=
  Nat.lt_log2_self.trans_le (Nat.pow_le_pow_right (by decide) (by unfold excess; omega))

theorem two_pow_excess_le {n : ℕ} (h : 0 < excess n) : 2 ^ (52 + excess n) ≤ n := by
  have hn : n ≠ 0 := by
    rintro rfl
    exact absurd h (by decide)
  refine (Nat.le_log2 hn).mp ?_
  unfold excess at h ⊢
  omega

theorem excess_eq {n k : ℕ} (hlow : 2 ^ (52 + k) ≤ n) (hhigh : n < 2 ^ (53 + k)) :
    excess n = k := by
  have hn : n ≠ 0 := ((Nat.two_pow_pos _).trans_le hlow).ne'
  have hlog : n.log2 = 52 + k := (Nat.log2_eq_iff hn).mpr ⟨hlow, by rwa [add_right_comm]⟩
  rw [excess, hlog, Nat.add_sub_cancel_left]

theorem excess_eq_zero {n : ℕ} (h : n < 2 ^ 53) : excess n = 0 := by
  rcases n.eq_zero_or_pos with rfl | hn
  · rfl
  · exact Nat.sub_eq_zero_of_le (Nat.le_of_lt_succ ((Nat.log2_lt hn.ne').mpr h))

theorem excess_le_iff {n k : ℕ} : excess n ≤ k ↔ n < 2 ^ (53 + k) := by
  constructor
  · intro h
    exact (lt_two_pow_excess n).trans_le (Nat.pow_le_pow_right (by decide) (by omega))
  · intro h
    rcases Nat.eq_zero_or_pos (excess n) with hzero | hpos
    · omega
    · have := (Nat.pow_lt_pow_iff_right (by decide)).mp ((two_pow_excess_le hpos).trans_lt h)
      omega

/-- The least count of units that is beyond the largest double. -/
def beyond : ℕ := twoTo (53 + 2045)

theorem twoTo_eq (k : ℕ) : twoTo k = 2 ^ k := rfl

theorem lt_beyond_iff {n : ℕ} : n < beyond ↔ excess n ≤ 2045 := by
  rw [beyond, twoTo_eq, excess_le_iff]

theorem excess_mono {n m : ℕ} (h : n ≤ m) : excess n ≤ excess m := by
  rcases n.eq_zero_or_pos with rfl | hn
  · exact Nat.zero_le _
  · have hlog : n.log2 ≤ m.log2 :=
      (Nat.le_log2 (hn.trans_le h).ne').mpr ((Nat.log2_self_le hn.ne').trans h)
    exact Nat.sub_le_sub_right hlog 52

theorem short_mul_two_pow {m : ℕ} (hm : m ≤ 2 ^ 53) (k : ℕ) : Short (m * 2 ^ k) := by
  rcases hm.lt_or_eq with hlt | rfl
  · have hle : excess (m * 2 ^ k) ≤ k := by
      rw [excess_le_iff, pow_add]
      exact Nat.mul_lt_mul_of_pos_right hlt (Nat.two_pow_pos k)
    exact (Nat.pow_dvd_pow 2 hle).mul_left m
  · rw [← pow_add, Short, excess, Nat.log2_two_pow]
    exact Nat.pow_dvd_pow 2 (by omega)

theorem Short.two_pow_dvd {d n : ℕ} (hd : Short d) (h : n ≤ d) : 2 ^ excess n ∣ d :=
  (Nat.pow_dvd_pow 2 (excess_mono h)).trans hd

/-- Short numbers are ordered by their zeros and then by the places before them. -/
theorem lt_iff_places {a b : ℕ} (hb : Short b) : a < b ↔ excess a < excess b ∨
    excess a = excess b ∧ a / 2 ^ excess a < b / 2 ^ excess b := by
  rcases lt_trichotomy (excess a) (excess b) with hlt | heq | hgt
  · exact iff_of_true (lt_of_not_ge fun h => hlt.not_ge (excess_mono h)) (.inl hlt)
  · rw [Short, ← heq] at hb
    rw [← heq, or_iff_right (lt_irrefl _), and_iff_right rfl]
    refine ⟨Nat.div_lt_div_of_lt_of_dvd hb, fun h => ?_⟩
    exact lt_of_not_ge fun hle => h.not_ge (Nat.div_le_div_right hle)
  · refine iff_of_false (fun h => hgt.not_ge (excess_mono h.le)) ?_
    rintro (hlt | ⟨heq, -⟩)
    · exact hgt.asymm hlt
    · exact hgt.ne' heq

/-! ## The nearest short number -/

def nearest (n : ℕ) : ℕ := halfEven n (excess n) * 2 ^ excess n

theorem nearest_le {n d : ℕ} (hd : Short d) (h : n ≤ d) : nearest n ≤ d := by
  obtain ⟨t, rfl⟩ := hd.two_pow_dvd h
  rw [mul_comm (2 ^ _)] at h ⊢
  exact Nat.mul_le_mul_right _ (halfEven_le h)

theorem le_nearest {n d : ℕ} (hd : Short d) (h : d ≤ n) : d ≤ nearest n := by
  rcases (excess_mono h).lt_or_eq with hlt | heq
  · have hpow : 2 ^ (52 + excess n) ≤ nearest n := by
      rw [nearest, pow_add]
      refine Nat.mul_le_mul_right _ (le_halfEven ?_)
      rw [← pow_add]
      exact two_pow_excess_le (by omega)
    exact ((lt_two_pow_excess d).le.trans (Nat.pow_le_pow_right (by decide) (by omega))).trans hpow
  · rw [Short, heq] at hd
    rw [← Nat.div_mul_cancel hd] at h ⊢
    exact Nat.mul_le_mul_right _ (le_halfEven h)

theorem halfEven_excess_le (n : ℕ) : halfEven n (excess n) ≤ 2 ^ 53 := by
  refine halfEven_le ?_
  rw [← pow_add]
  exact (lt_two_pow_excess n).le

theorem short_nearest (n : ℕ) : Short (nearest n) := short_mul_two_pow (halfEven_excess_le n) _

theorem nearest_of_short {n : ℕ} (h : Short n) : nearest n = n :=
  le_antisymm (nearest_le h le_rfl) (le_nearest h le_rfl)

theorem nearest_mono {n m : ℕ} (h : n ≤ m) : nearest n ≤ nearest m := by
  rcases (excess_mono h).lt_or_eq with hlt | heq
  · have hpow : nearest n ≤ 2 ^ (53 + excess n) := by
      rw [nearest, pow_add]
      exact Nat.mul_le_mul_right _ (halfEven_excess_le n)
    have hshort : Short (2 ^ (53 + excess n)) := by
      rw [pow_add]
      exact short_mul_two_pow le_rfl _
    refine hpow.trans (le_nearest hshort ?_)
    exact (Nat.pow_le_pow_right (by decide) (by omega)).trans (two_pow_excess_le (by omega))
  · rw [nearest, nearest, heq]
    exact Nat.mul_le_mul_right _ (halfEven_mono h _)

theorem nearest_pos {n : ℕ} (h : 0 < n) : 0 < nearest n :=
  (le_nearest (short_mul_two_pow (by decide) 0) h : 1 * 2 ^ 0 ≤ nearest n)

theorem nearest_mul_add {m b k : ℕ} (hlow : 2 ^ 52 ≤ m) (hhigh : m < 2 ^ 53) (hb : b < 2 ^ k) :
    nearest (m * 2 ^ k + b) =
      (if 2 * b < 2 ^ k ∨ 2 * b = 2 ^ k ∧ m % 2 = 0 then m else m + 1) * 2 ^ k := by
  have hexcess : excess (m * 2 ^ k + b) = k := by
    refine excess_eq ?_ ?_
    · rw [pow_add]
      exact (Nat.mul_le_mul_right _ hlow).trans (Nat.le_add_right _ _)
    · have hle : (m + 1) * 2 ^ k ≤ 2 ^ (53 + k) := by
        rw [pow_add]
        exact Nat.mul_le_mul_right _ hhigh
      rw [add_one_mul] at hle
      omega
  rw [nearest, hexcess, halfEven_mul_add hb]

/-! ## Rank -/

/-- The place of a short number among the short numbers. -/
def rank (n : ℕ) : ℕ := excess n * 2 ^ 52 + n / 2 ^ excess n

theorem rank_lt_of_excess_lt {n m : ℕ} (h : excess n < excess m) : rank n < rank m := by
  have hn : n / 2 ^ excess n < 2 ^ 53 := by
    rw [Nat.div_lt_iff_lt_mul (Nat.two_pow_pos _), ← pow_add]
    exact lt_two_pow_excess n
  have hm : 2 ^ 52 ≤ m / 2 ^ excess m := by
    rw [Nat.le_div_iff_mul_le (Nat.two_pow_pos _), ← pow_add]
    exact two_pow_excess_le (by omega)
  have hplace : (excess n + 1) * 2 ^ 52 ≤ excess m * 2 ^ 52 := Nat.mul_le_mul_right _ h
  unfold rank
  omega

theorem rank_lt_rank {n m : ℕ} (hm : Short m) (h : n < m) : rank n < rank m := by
  rcases (lt_iff_places hm).mp h with hlt | ⟨heq, hplaces⟩
  · exact rank_lt_of_excess_lt hlt
  · rw [rank, rank, heq, Nat.add_lt_add_iff_left, ← heq]
    rwa [← heq] at hplaces

theorem rank_lt {n : ℕ} (h : n < beyond) : rank n < 2 ^ 63 := by
  have hexcess := lt_beyond_iff.mp h
  have hplaces : n / 2 ^ excess n < 2 ^ 53 := by
    rw [Nat.div_lt_iff_lt_mul (Nat.two_pow_pos _), ← pow_add]
    exact lt_two_pow_excess n
  unfold rank
  omega

end Renovation.Decimal
