import Renovation.Proofs.Decimal.Units

set_option autoImplicit false

/-!
# Differences that are rounded

A finite double of either sign stands for a whole number of units of the smallest double, and so
does the double that a whole number is read as. The difference of two finite doubles is infinite or
stands for the short number nearest to the difference of theirs. Rounding keeps order, and it leaves
what a double stands for as it is.
-/

namespace Renovation.Decimal

open Float.Model Float.Model.UnpackedFloat

/-! ## The nearest short number of either sign -/

def nearestInt (z : ℤ) : ℤ := z.sign * nearest z.natAbs

theorem nearestInt_natCast (n : ℕ) : nearestInt n = nearest n := by
  rcases n.eq_zero_or_pos with rfl | hn
  · rfl
  · rw [nearestInt, Int.sign_eq_one_of_pos (Int.natCast_pos.mpr hn), one_mul, Int.natAbs_natCast]

theorem nearestInt_neg (z : ℤ) : nearestInt (-z) = -nearestInt z := by
  rw [nearestInt, nearestInt, Int.sign_neg, Int.natAbs_neg, neg_mul]

theorem nearestInt_of_short {z : ℤ} (h : Short z.natAbs) : nearestInt z = z := by
  rw [nearestInt, nearest_of_short h, Int.sign_mul_natAbs]

theorem nearestInt_nonneg {z : ℤ} (h : 0 ≤ z) : 0 ≤ nearestInt z := by
  lift z to ℕ using h
  rw [nearestInt_natCast]
  exact Int.natCast_nonneg _

theorem nearestInt_mono : Monotone nearestInt := by
  intro a b h
  obtain ⟨n, rfl | rfl⟩ := a.eq_nat_or_neg <;> obtain ⟨m, rfl | rfl⟩ := b.eq_nat_or_neg
  · rw [nearestInt_natCast, nearestInt_natCast]
    exact Int.ofNat_le.mpr (nearest_mono (Int.ofNat_le.mp h))
  · obtain rfl : n = 0 := by omega
    obtain rfl : m = 0 := by omega
    rfl
  · rw [nearestInt_neg]
    have hn := nearestInt_nonneg (Int.natCast_nonneg n)
    have hm := nearestInt_nonneg (Int.natCast_nonneg m)
    omega
  · rw [nearestInt_neg, nearestInt_neg, nearestInt_natCast, nearestInt_natCast]
    exact neg_le_neg (Int.ofNat_le.mpr (nearest_mono (Int.ofNat_le.mp (neg_le_neg_iff.mp h))))

/-! ## Signs -/

theorem natAbs_apply (s : Sign) (n : ℕ) : (s.apply n).natAbs = n := by
  cases s with
  | negative => exact (Int.natAbs_neg _).trans (Int.natAbs_natCast n)
  | positive => exact Int.natAbs_natCast n

theorem apply_mul (s : Sign) (a b : ℤ) : s.apply (a * b) = s.apply a * b := by
  cases s with
  | negative => exact (neg_mul a b).symm
  | positive => rfl

theorem apply_neg (s : Sign) (z : ℤ) : (-s).apply z = -s.apply z := by
  cases s with
  | negative => exact (neg_neg z).symm
  | positive => rfl

theorem nearestInt_apply (s : Sign) (n : ℕ) : nearestInt (s.apply n) = s.apply (nearest n) := by
  cases s with
  | negative => exact (nearestInt_neg n).trans (congrArg _ (nearestInt_natCast n))
  | positive => exact nearestInt_natCast n

/-! ## Units of either sign -/

/-- An unpacked number stands for a whole number of units of the smallest double. -/
def CountsInt (z : ℤ) : UnpackedFloat → Prop
  | .zero _ => z = 0
  | .finite s m e hm => Counts z.natAbs (.finite .positive m e hm) ∧ s.apply z.natAbs = z
  | _ => False

theorem countsInt_finite {s : Sign} {n m : ℕ} {e : ℤ} {hm : 0 < m}
    (h : Counts n (.finite .positive m e hm)) : CountsInt (s.apply n) (.finite s m e hm) := by
  rw [CountsInt, natAbs_apply]
  exact ⟨h, rfl⟩

theorem CountsInt.short {z : ℤ} {u : UnpackedFloat} (h : CountsInt z u) : Short z.natAbs := by
  cases u with
  | infinity | notANumber => exact h.elim
  | zero s =>
    obtain rfl := h
    exact dvd_zero _
  | finite s m e hm => exact h.1.1

theorem CountsInt.eq_mul {z : ℤ} {s : Sign} {m : ℕ} {e : ℤ} {hm : 0 < m}
    (h : CountsInt z (.finite s m e hm)) {k : ℕ} (hk : k ≤ excess z.natAbs) :
    s.apply (m * 2 ^ (excess z.natAbs - k) : ℕ) * 2 ^ k = z := by
  have hplaces : m * 2 ^ (excess z.natAbs - k) * 2 ^ k = z.natAbs := by
    rw [mul_assoc, ← pow_add, Nat.sub_add_cancel hk]
    exact h.1.eq_mul.symm
  calc s.apply (m * 2 ^ (excess z.natAbs - k) : ℕ) * 2 ^ k
      = s.apply (m * 2 ^ (excess z.natAbs - k) * 2 ^ k : ℕ) := by
        rw [Nat.cast_mul _ (2 ^ k), apply_mul, Nat.cast_pow, Nat.cast_ofNat]
    _ = z := by rw [hplaces, h.2]

theorem CountsInt.natAbs_pos {z : ℤ} {s : Sign} {m : ℕ} {e : ℤ} {hm : 0 < m}
    (h : CountsInt z (.finite s m e hm)) : 0 < z.natAbs := by
  rw [h.1.eq_mul]
  exact Nat.mul_pos hm (Nat.two_pow_pos _)

theorem CountsInt.pos {z : ℤ} {m : ℕ} {e : ℤ} {hm : 0 < m}
    (h : CountsInt z (.finite .positive m e hm)) : 0 < z := by
  have hpos := h.natAbs_pos
  have hsign : (z.natAbs : ℤ) = z := h.2
  omega

theorem CountsInt.neg {z : ℤ} {m : ℕ} {e : ℤ} {hm : 0 < m}
    (h : CountsInt z (.finite .negative m e hm)) : z < 0 := by
  have hpos := h.natAbs_pos
  have hsign : -(z.natAbs : ℤ) = z := h.2
  omega

theorem compare_negative {m n : ℕ} {e f : ℤ} (hm : 0 < m) (hn : 0 < n) :
    (UnpackedFloat.finite .negative m e hm).compare (.finite .negative n f hn) =
      (UnpackedFloat.finite .positive n f hn).compare (.finite .positive m e hm) := by
  change some ((compare e f).then (compare m n)).swap =
    some ((compare f e).then (compare n m))
  rw [Ordering.swap_then, ← Std.OrientedCmp.eq_swap, ← Std.OrientedCmp.eq_swap]

theorem CountsInt.compare_eq_lt_iff {a b : ℤ} {u v : UnpackedFloat} (hu : CountsInt a u)
    (hv : CountsInt b v) : u.compare v = some .lt ↔ a < b := by
  cases u with
  | infinity | notANumber => exact hu.elim
  | zero s =>
    obtain rfl := hu
    cases v with
    | infinity | notANumber => exact hv.elim
    | zero t =>
      obtain rfl := hv
      exact iff_of_false (by rintro ⟨⟩) (lt_irrefl 0)
    | finite t n f hn =>
      cases t with
      | positive => exact iff_of_true rfl hv.pos
      | negative => exact iff_of_false (by rintro ⟨⟩) hv.neg.not_gt
  | finite s m e hm =>
    cases v with
    | infinity | notANumber => exact hv.elim
    | zero t =>
      obtain rfl := hv
      cases s with
      | positive => exact iff_of_false (by rintro ⟨⟩) hu.pos.not_gt
      | negative => exact iff_of_true rfl hu.neg
    | finite t n f hn =>
      cases s with
      | positive =>
        cases t with
        | positive =>
          have ha := hu.pos
          have hb := hv.pos
          rw [hu.1.compare_eq_lt_iff hv.1]
          omega
        | negative => exact iff_of_false (by rintro ⟨⟩) (hv.neg.trans hu.pos).not_gt
      | negative =>
        cases t with
        | positive => exact iff_of_true rfl (hu.neg.trans hv.pos)
        | negative =>
          have ha := hu.neg
          have hb := hv.neg
          rw [compare_negative hm hn, hv.1.compare_eq_lt_iff hu.1]
          omega

theorem countsInt_of_positive {s : Sign} {n m : ℕ} {e : ℤ}
    (h : Counts n (roundWithAccuracy Format.binary64 .positive m e .exact)) :
    CountsInt (s.apply n) (roundWithAccuracy Format.binary64 s m e .exact) := by
  rw [roundWithAccuracy_eq] at h ⊢
  split
  · rename_i hzero
    rw [dif_pos hzero] at h
    obtain rfl : n = 0 := h
    cases s <;> rfl
  · rename_i hpos
    rw [dif_neg hpos] at h
    exact countsInt_finite h

theorem countsInt_round (s : Sign) {m k : ℕ} (hm : 0 < m) :
    CountsInt (nearestInt (s.apply (m * 2 ^ k : ℕ)))
      (UnpackedFloat.round Format.binary64 s m (k - 1074)) := by
  rw [nearestInt_apply]
  exact countsInt_of_positive (counts_round hm)

theorem countsInt_normalize (z : ℤ) (k : ℕ) : CountsInt (nearestInt (z * 2 ^ k))
    (UnpackedFloat.normalize Format.binary64 z (k - 1074) .positive) := by
  have happly (s : Sign) (n : ℕ) : s.apply (n * 2 ^ k : ℕ) = s.apply n * 2 ^ k := by
    rw [Nat.cast_mul, apply_mul, Nat.cast_pow, Nat.cast_ofNat]
  obtain ⟨n, rfl | rfl⟩ := z.eq_nat_or_neg <;> rcases n.eq_zero_or_pos with rfl | hn
  · rw [Nat.cast_zero, zero_mul]
    rfl
  · have hcompare : compare (n : ℤ) 0 = .gt := Int.compare_eq_gt.mpr (by omega)
    have hround := countsInt_round (k := k) .positive hn
    rw [happly] at hround
    rw [UnpackedFloat.normalize, hcompare]
    exact hround
  · rw [Nat.cast_zero, neg_zero, zero_mul]
    rfl
  · have hcompare : compare (-n : ℤ) 0 = .lt := Int.compare_eq_lt.mpr (by omega)
    have hround := countsInt_round (k := k) .negative hn
    rw [happly] at hround
    rw [UnpackedFloat.normalize, hcompare, neg_neg]
    exact hround

theorem countsInt_neg {z : ℤ} {u : UnpackedFloat} (h : CountsInt z u) : CountsInt (-z) u.neg := by
  cases u with
  | infinity | notANumber => exact h.elim
  | zero s =>
    obtain rfl := h
    rfl
  | finite s m e hm =>
    refine ⟨by rw [Int.natAbs_neg]; exact h.1, ?_⟩
    rw [apply_neg, Int.natAbs_neg, h.2]

theorem countsInt_sub {a b : ℤ} {u v : UnpackedFloat} (hu : CountsInt a u) (hv : CountsInt b v) :
    CountsInt (nearestInt (a - b)) (UnpackedFloat.sub Format.binary64 u v) := by
  cases u with
  | infinity | notANumber => exact hu.elim
  | zero s =>
    obtain rfl := hu
    cases v with
    | infinity | notANumber => exact hv.elim
    | zero t =>
      obtain rfl := hv
      rw [UnpackedFloat.sub]
      split <;> rfl
    | finite t m e hm =>
      rw [zero_sub, nearestInt_neg, nearestInt_of_short hv.short]
      refine ⟨by rw [Int.natAbs_neg]; exact hv.1, ?_⟩
      rw [apply_neg, Int.natAbs_neg, hv.2]
  | finite s m₁ e₁ hm₁ =>
    cases v with
    | infinity | notANumber => exact hv.elim
    | zero t =>
      obtain rfl := hv
      rw [sub_zero, nearestInt_of_short hu.short]
      exact hu
    | finite t m₂ e₂ hm₂ =>
      let k := min (excess a.natAbs) (excess b.natAbs)
      let d : ℤ := s.apply (m₁ * 2 ^ (excess a.natAbs - k) : ℕ) -
        t.apply (m₂ * 2 ^ (excess b.natAbs - k) : ℕ)
      have hdifference : a - b = d * 2 ^ k := by
        rw [sub_mul, hu.eq_mul (min_le_left _ _), hv.eq_mul (min_le_right _ _)]
      have hnormal : UnpackedFloat.sub Format.binary64 (.finite s m₁ e₁ hm₁)
          (.finite t m₂ e₂ hm₂) =
          UnpackedFloat.normalize Format.binary64 d (k - 1074) .positive := by
        obtain ⟨⟨-, -, rfl⟩, -⟩ := hu
        obtain ⟨⟨-, -, rfl⟩, -⟩ := hv
        have hmin : min ((excess a.natAbs : ℤ) - 1074) (excess b.natAbs - 1074) = k - 1074 := by
          omega
        have hleft : ((excess a.natAbs : ℤ) - 1074 - (k - 1074)).toNat = excess a.natAbs - k := by
          omega
        have hright : ((excess b.natAbs : ℤ) - 1074 - (k - 1074)).toNat = excess b.natAbs - k := by
          omega
        change UnpackedFloat.normalize _ (s.apply (m₁ <<< Int.toNat (_ - min _ _) : ℕ) -
          t.apply (m₂ <<< Int.toNat (_ - min _ _) : ℕ)) (min _ _) _ = _
        rw [hmin, hleft, hright, Nat.shiftLeft_eq, Nat.shiftLeft_eq]
      rw [hnormal, hdifference]
      exact countsInt_normalize d k

/-! ## Doubles -/

/-- A double of so many units, which are below zero for a negative one. -/
def HoldsInt (x : Float) (z : ℤ) : Prop := CountsInt z x.toModel.unpack

theorem HoldsInt.short {x : Float} {z : ℤ} (h : HoldsInt x z) : Short z.natAbs :=
  CountsInt.short h

theorem HoldsInt.expand {x : Float} {z : ℤ} (h : HoldsInt x z) :
    ∃ b, expand x = .finite b ∧ b.toRat = z / unitsOfOne := by
  have hx := expand_eq x
  rw [HoldsInt] at h
  cases hu : x.toModel.unpack with
  | infinity | notANumber =>
    rw [hu] at h
    exact h.elim
  | zero s =>
    rw [hu] at h hx
    obtain rfl := h
    refine ⟨_, hx, ?_⟩
    rw [toRat_eq (k := 0) rfl, Nat.zero_mul, Nat.cast_zero, zero_div, mul_zero, Int.cast_zero,
      zero_div]
  | finite s m e hm =>
    rw [hu] at h hx
    obtain ⟨hcount, hsign⟩ := h
    refine ⟨_, hx, ?_⟩
    rw [toRat_eq hcount.2.2]
    change _ * (((m * 2 ^ excess z.natAbs : ℕ) : ℚ) / _) = _
    rw [← hcount.eq_mul, ← mul_div_assoc]
    congr 1
    conv_rhs => rw [← hsign]
    cases s with
    | negative =>
      rw [Sign.apply, Int.cast_neg, Int.cast_natCast]
      exact neg_one_mul _
    | positive =>
      rw [Sign.apply, Int.cast_natCast]
      exact one_mul _

theorem HoldsInt.isFinite {x : Float} {z : ℤ} (h : HoldsInt x z) : Datum.isFinite x = true := by
  obtain ⟨b, hb, -⟩ := h.expand
  exact isFinite_eq_true_iff.mpr ⟨b, hb⟩

theorem HoldsInt.value {x : Float} {z : ℤ} (h : HoldsInt x z) :
    (Number.ofDouble x : ℚ) = z / unitsOfOne := by
  obtain ⟨b, hb, hvalue⟩ := h.expand
  rw [ofDouble_of_expand hb, hvalue]

theorem HoldsInt.isZero_iff {x : Float} {z : ℤ} (h : HoldsInt x z) :
    Number.isZero x = true ↔ z = 0 := by
  change (x.toModel.unpack.compare (.zero .positive) == some .eq) = true ↔ _
  rw [HoldsInt] at h
  cases hu : x.toModel.unpack with
  | infinity | notANumber =>
    rw [hu] at h
    exact h.elim
  | zero s =>
    rw [hu] at h
    exact iff_of_true rfl h
  | finite s m e hm =>
    rw [hu] at h
    refine iff_of_false ?_ (Int.natAbs_pos.mp (CountsInt.natAbs_pos h))
    cases s <;> exact Bool.false_ne_true

theorem exists_holdsInt {x : Float} (hx : Datum.isFinite x = true) : ∃ z, HoldsInt x z := by
  obtain ⟨b, hb⟩ := isFinite_eq_true_iff.mp hx
  obtain ⟨k, -, he, hshort, hlong⟩ := expand_finite hb
  rw [expand_eq] at hb
  unfold HoldsInt
  cases hu : x.toModel.unpack with
  | infinity | notANumber =>
    rw [hu] at hb
    cases hb
  | zero s => exact ⟨0, rfl⟩
  | finite s m e hm =>
    rw [hu] at hb
    obtain rfl := Expansion.finite.inj hb
    exact ⟨s.apply (m * 2 ^ k : ℕ), countsInt_finite (counts_finite hm hshort hlong rfl he)⟩

theorem HoldsInt.below_iff {x y : Float} {a b : ℤ} (hx : HoldsInt x a) (hy : HoldsInt y b) :
    Number.below x y = true ↔ a < b := by
  rw [Decimal.below_iff]
  exact CountsInt.compare_eq_lt_iff hx hy

theorem below_iff_of_finite {x y : Float} (hx : Datum.isFinite x = true)
    (hy : Datum.isFinite y = true) :
    Number.below x y = true ↔ (Number.ofDouble x : ℚ) < Number.ofDouble y := by
  obtain ⟨a, ha⟩ := exists_holdsInt hx
  obtain ⟨b, hb⟩ := exists_holdsInt hy
  have hunits : (0 : ℚ) < unitsOfOne := Nat.cast_pos.mpr unitsOfOne_pos
  rw [ha.below_iff hb, ha.value, hb.value, div_lt_div_iff_of_pos_right hunits, Int.cast_lt]

theorem holdsInt_pack {z : ℤ} {u : UnpackedFloat} (h : CountsInt z u)
    (hfinite : Datum.isFinite (.ofModel (Float.Model.pack u)) = true) :
    HoldsInt (.ofModel (Float.Model.pack u)) z := by
  have hunpack : (Float.ofModel (Float.Model.pack u)).toModel.unpack =
      UnpackedFloat.unpack Format.binary64 (UnpackedFloat.pack Format.binary64 u) := rfl
  rw [HoldsInt, hunpack]
  cases u with
  | infinity | notANumber => exact h.elim
  | zero s =>
    obtain rfl := h
    cases s <;> rfl
  | finite s m e hm =>
    rcases Nat.lt_or_ge z.natAbs beyond with hlt | hge
    · rw [unpack_pack_of_lt s h.1 hlt]
      exact h
    · obtain ⟨b, hb⟩ := isFinite_eq_true_iff.mp hfinite
      rw [expand_eq, hunpack, unpack_pack_of_le s h.1 hge] at hb
      cases hb

theorem HoldsInt.neg {x : Float} {z : ℤ} (h : HoldsInt x z) : HoldsInt (-x) (-z) :=
  holdsInt_pack (countsInt_neg h) (isFinite_neg h.isFinite)

theorem HoldsInt.sub {x y : Float} {a b : ℤ} (hx : HoldsInt x a) (hy : HoldsInt y b)
    (hfinite : Datum.isFinite (x - y) = true) : HoldsInt (x - y) (nearestInt (a - b)) :=
  holdsInt_pack (countsInt_sub hx hy) hfinite

/-! ## Whole numbers -/

theorem twoTo_mul_unitsOfOne {j k : ℕ} (h : j + k = 1074) : 2 ^ j * 2 ^ k = unitsOfOne := by
  rw [← pow_add, h, unitsOfOne, twoTo_eq]

theorem short_mul_twoTo {m : ℕ} (hm : m ≤ 2 ^ 53) (k : ℕ) : Short (m * twoTo k) :=
  short_mul_two_pow hm k

theorem short_whole {n : ℕ} (h : n < 2 ^ 53) : Short (n * unitsOfOne) := short_mul_twoTo h.le 1074

theorem countsInt_ofNat {n : ℕ} (h : n < 2 ^ 53) :
    CountsInt (n * unitsOfOne : ℕ) (UnpackedFloat.ofNat Format.binary64 n) := by
  obtain ⟨k, hk⟩ : ∃ k : ℕ, k = 1074 := ⟨_, rfl⟩
  have hexponent : (k : ℤ) - 1074 = 0 := by omega
  have hunits : (n : ℤ) * 2 ^ k = (n * unitsOfOne : ℕ) := by
    rw [unitsOfOne, ← hk, twoTo_eq, Nat.cast_mul, Nat.cast_pow, Nat.cast_ofNat]
  have hnormal := countsInt_normalize n k
  rw [hunits, hexponent, nearestInt_natCast, nearest_of_short (short_whole h)] at hnormal
  exact hnormal

theorem countsInt_mul_one {z : ℤ} {u : UnpackedFloat} (h : CountsInt z u)
    (hplaces : z ≠ 0 → 52 ≤ excess z.natAbs) :
    CountsInt z (UnpackedFloat.mul Format.binary64 u
      (.finite .positive (2 ^ 52) (-52) (by decide))) := by
  cases u with
  | infinity | notANumber => exact h.elim
  | zero s => exact h
  | finite s m e hm =>
    have hpos : 0 < m * 2 ^ 52 := Nat.mul_pos hm (Nat.two_pow_pos 52)
    have hlong : 2 ^ 52 ≤ m * 2 ^ 52 := Nat.le_mul_of_pos_left _ hm
    have hshort := h.short
    obtain ⟨hcount, hsign⟩ := h
    have hz : 0 < z.natAbs := by
      rw [hcount.eq_mul]
      exact Nat.mul_pos hm (Nat.two_pow_pos _)
    obtain ⟨k, hk⟩ := Nat.exists_eq_add_of_le (hplaces (Int.natAbs_pos.mp hz))
    have hvalue : m * 2 ^ 52 * 2 ^ k = z.natAbs := by
      rw [mul_assoc, ← pow_add, ← hk]
      exact hcount.eq_mul.symm
    have hexponent : e + -52 = (k : ℤ) - 1074 := by
      obtain ⟨-, -, rfl⟩ := hcount
      omega
    have hround : Counts (nearest (m * 2 ^ 52 * 2 ^ k))
        (roundWithAccuracy Format.binary64 .positive (m * 2 ^ 52) (k - 1074) .exact) :=
      counts_roundWithAccuracy hpos (.inl hlong)
    rw [hvalue, nearest_of_short hshort, ← hexponent] at hround
    have hsame : s * .positive = s := by cases s <;> rfl
    have hmul : UnpackedFloat.mul Format.binary64 (.finite s m e hm)
        (.finite .positive (2 ^ 52) (-52) (by decide)) =
        roundWithAccuracy Format.binary64 (s * .positive) (m * 2 ^ 52) (e + -52) .exact := by
      rw [UnpackedFloat.mul]
    rw [hmul, hsame, ← hsign]
    exact countsInt_of_positive hround

theorem holdsInt_ofNat_small {n : ℕ} (h : n < 2 ^ 53) :
    HoldsInt (Float.ofNat n) (n * unitsOfOne : ℕ) := by
  have hfinite := isFinite_ofNat_small h
  have hread : HoldsInt (.ofModel (Float.Model.pack (UnpackedFloat.ofNat Format.binary64 n)))
      (n * unitsOfOne : ℕ) :=
    holdsInt_pack (countsInt_ofNat h) (isFinite_pack (by decide) (within_ofNat h))
  rw [ofNat_eq_mul h] at hfinite ⊢
  refine holdsInt_pack (countsInt_mul_one hread fun hne => ?_) hfinite
  rw [Int.natAbs_natCast]
  refine le_trans ?_ (excess_mono (Nat.le_mul_of_pos_left unitsOfOne ?_))
  · rw [excess, unitsOfOne, twoTo_eq, Nat.log2_two_pow]
    decide
  · exact Nat.pos_of_ne_zero fun hzero => hne (by rw [hzero, Nat.zero_mul]; rfl)

theorem holdsInt_ofNat_large {n : ℕ} (hlarge : 2 ^ 53 ≤ n) (h : n < twoTo 1024 - twoTo 970) :
    HoldsInt (Float.ofNat n) (nearest (n * unitsOfOne)) := by
  have hfinite := isFinite_ofNat h
  have hunits : n * unitsOfOne = n * 2 ^ 53 * 2 ^ 1021 := by
    rw [mul_assoc, twoTo_mul_unitsOfOne rfl]
  rw [ofNat_eq_scaled hlarge] at hfinite ⊢
  refine holdsInt_pack ?_ hfinite
  have hround := counts_roundWithAccuracy (k := 1021) (m := n * 2 ^ 53)
    (Nat.mul_pos (by omega) (by decide)) (.inl (by omega))
  rw [← hunits] at hround
  exact countsInt_of_positive hround

theorem holdsInt_ofNat {n : ℕ} (h : n < twoTo 1024 - twoTo 970) :
    HoldsInt (Float.ofNat n) (nearest (n * unitsOfOne)) := by
  rcases Nat.lt_or_ge n (2 ^ 53) with hsmall | hlarge
  · rw [nearest_of_short (short_whole hsmall)]
    exact holdsInt_ofNat_small hsmall
  · exact holdsInt_ofNat_large hlarge h

theorem wholeToDouble_of_lt {n : ℤ} (h : n.natAbs < twoTo 1024 - twoTo 970) :
    Datum.wholeToDouble n = .ok (Float.ofInt n) := by
  unfold Datum.wholeToDouble wholeToDouble?
  rw [if_neg (Nat.not_le.mpr h)]

/-- A whole number is read as the double nearest to it. -/
theorem holdsInt_of_wholeToDouble {n : ℤ} {x : Float} (h : Datum.wholeToDouble n = .ok x) :
    HoldsInt x (nearestInt (n * unitsOfOne)) := by
  unfold Datum.wholeToDouble wholeToDouble? at h
  split at h
  · rename_i y hy
    cases h
    split at hy
    · cases hy
    · rename_i hbound
      cases hy
      cases n with
      | ofNat n =>
        have hholds := holdsInt_ofNat (Nat.not_le.mp hbound)
        rw [← nearestInt_natCast, Nat.cast_mul] at hholds
        exact hholds
      | negSucc n =>
        have hholds := (holdsInt_ofNat (Nat.not_le.mp hbound)).neg
        rw [← nearestInt_natCast, ← nearestInt_neg, Nat.cast_mul, ← neg_mul] at hholds
        exact hholds
  · cases h

end Renovation.Decimal
