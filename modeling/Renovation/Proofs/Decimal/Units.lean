import Renovation.Proofs.Decimal.Sum
import Renovation.Proofs.Exact

set_option autoImplicit false

/-!
# Doubles in units

A double from zero up is a count of units of the smallest one. Counts have the order of the doubles
and their exact value, and the sum of two doubles has the nearest count to the sum of theirs. It is
infinite where that count is beyond the largest double.
-/

namespace Renovation.Decimal

open Float.Model Float.Model.UnpackedFloat

/-! ## Taking doubles apart -/

def expansion : UnpackedFloat → Expansion
  | .zero s => .finite ⟨s == .negative, 0, -1074⟩
  | .finite s m e _ => .finite ⟨s == .negative, m, e⟩
  | .infinity s => .infinite (s == .negative)
  | .notANumber => .notANumber

theorem toNat_unpackMantissa (b : BitVec 64) :
    (@unpackMantissa Format.binary64 b).toNat = b.toNat % 2 ^ 52 := by
  simp [unpackMantissa]

theorem ofBitVec_unpackSign (b : BitVec 64) :
    (Sign.ofBitVec (@unpackSign Format.binary64 b) == .negative) = (b.toNat / 2 ^ 63 == 1) := by
  have hlt : b.toNat < 2 ^ 64 := b.isLt
  have hsign : (@unpackSign Format.binary64 b).toNat = b.toNat / 2 ^ 63 := by
    simp [unpackSign, Nat.shiftRight_eq_div_pow]
    omega
  have hbit : ∀ s : BitVec 1, (Sign.ofBitVec s == .negative) = (s.toNat == 1) := by decide
  rw [← hsign]
  exact hbit _

theorem expand_eq (x : Float) : expand x = expansion x.toModel.unpack := by
  let b := x.toModel.toBits.toBitVec
  have hexponent : x.toBits.toNat / twoTo 52 % twoTo 11 =
      (@unpackExponent Format.binary64 b).toNat := (toNat_exponentField b).symm
  have hmantissa : x.toBits.toNat % twoTo 52 = (@unpackMantissa Format.binary64 b).toNat :=
    (toNat_unpackMantissa b).symm
  have hsign : (x.toBits.toNat / twoTo 63 == 1) =
      (Sign.ofBitVec (@unpackSign Format.binary64 b) == .negative) := (ofBitVec_unpackSign b).symm
  have hbias : (Format.binary64.exponentBias : ℤ) = 1023 := rfl
  have hlast : (@unpackExponent Format.binary64 b).toNat = 2047 ↔
      @unpackExponent Format.binary64 b = -1#11 := BitVec.toNat_inj (y := -1#11)
  have hfirst : (@unpackExponent Format.binary64 b).toNat = 0 ↔
      @unpackExponent Format.binary64 b = 0#11 := BitVec.toNat_inj (y := 0#11)
  have hzero : (@unpackMantissa Format.binary64 b).toNat = 0 ↔
      @unpackMantissa Format.binary64 b = 0#52 := BitVec.toNat_inj (y := 0#52)
  rw [expand, hexponent, hmantissa, hsign, Float.Model.unpack, UnpackedFloat.unpack]
  simp only [beq_iff_eq, hlast, hfirst, hzero, hbias]
  split_ifs with hl hf hf hz
  · rfl
  · rfl
  · rw [hzero.mpr hz]
    rfl
  · exact congrArg (fun e => Expansion.finite ⟨_, _, e⟩) (by rw [hfirst.mpr hf]; rfl)
  · exact congrArg₂ (fun m e => Expansion.finite ⟨_, m, e⟩) (toNat_implicit_append _).symm rfl

theorem expand_finite {x : Float} {b : Binary} (h : expand x = .finite b) :
    ∃ k : ℕ, k ≤ 2045 ∧ b.exponent = (k : ℤ) - 1074 ∧ b.mantissa < 2 ^ 53 ∧
      (2 ^ 52 ≤ b.mantissa ∨ k = 0) := by
  have hfraction : x.toBits.toNat % twoTo 52 < 2 ^ 52 := Nat.mod_lt _ (Nat.two_pow_pos 52)
  have hfield : x.toBits.toNat / twoTo 52 % twoTo 11 < 2 ^ 11 := Nat.mod_lt _ (Nat.two_pow_pos 11)
  have hleading : twoTo 52 = 2 ^ 52 := rfl
  unfold expand at h
  simp only [beq_iff_eq] at h
  generalize x.toBits.toNat / twoTo 52 % twoTo 11 = field at h hfield
  generalize x.toBits.toNat % twoTo 52 = fraction at h hfraction
  split_ifs at h with hlast hzero hfirst
  · obtain rfl := Expansion.finite.inj h
    exact ⟨0, by decide, rfl, hfraction.trans (by decide), .inr rfl⟩
  · obtain rfl := Expansion.finite.inj h
    refine ⟨field - 1, by omega, ?_, ?_, .inl ?_⟩
    · change (field : ℤ) - 1075 = _
      omega
    · change twoTo 52 + fraction < 2 ^ 53
      omega
    · change 2 ^ 52 ≤ twoTo 52 + fraction
      omega

theorem isFinite_eq_true_iff {x : Float} :
    Datum.isFinite x = true ↔ ∃ b, expand x = .finite b := by
  unfold Datum.isFinite
  cases expand x with
  | finite b => exact iff_of_true rfl ⟨b, rfl⟩
  | infinite | notANumber => exact iff_of_false Bool.false_ne_true (by rintro ⟨_, h⟩; cases h)

theorem ofDouble_of_expand {x : Float} {b : Binary} (h : expand x = .finite b) :
    (Number.ofDouble x : ℚ) = b.toRat := by
  simp only [Number.ofDouble, Datum.extentOfDouble, h]

theorem belowWhole_iff {x : Float} (hx : Datum.isFinite x = true) (n : ℤ) :
    Number.belowWhole x n = true ↔ (Number.ofDouble x : ℚ) < n := by
  obtain ⟨b, hb⟩ := isFinite_eq_true_iff.mp hx
  rw [ofDouble_of_expand hb]
  simp only [Number.belowWhole, Datum.extentOfDouble, hb]
  exact decide_eq_true_iff

/-! ## Counts of doubles -/

/-- The units that make one. -/
def unitsOfOne : ℕ := twoTo 1074

theorem unitsOfOne_pos : 0 < unitsOfOne := twoTo_pos 1074

theorem num_mul_unitsOfOne {b : Binary} {k : ℕ} (he : b.exponent = (k : ℤ) - 1074) :
    b.num * unitsOfOne = b.mantissa * 2 ^ k * b.den := by
  rw [Binary.num, Binary.den, unitsOfOne, mul_assoc, mul_assoc, twoTo_eq, twoTo_eq, twoTo_eq,
    ← pow_add, ← pow_add]
  congr 2
  omega

theorem toRat_eq {b : Binary} {k : ℕ} (he : b.exponent = (k : ℤ) - 1074) :
    b.toRat = (if b.negative then -1 else 1) * ((b.mantissa * 2 ^ k : ℕ) / unitsOfOne) := by
  have hunits : (unitsOfOne : ℚ) ≠ 0 := Nat.cast_ne_zero.mpr unitsOfOne_pos.ne'
  have hden : (b.den : ℚ) ≠ 0 := Nat.cast_ne_zero.mpr b.den_pos.ne'
  have hvalue : ((b.mantissa * 2 ^ k : ℕ) : ℚ) / unitsOfOne = b.num / b.den := by
    rw [div_eq_div_iff hunits hden, ← Nat.cast_mul, ← Nat.cast_mul, num_mul_unitsOfOne he]
  rw [hvalue, Binary.toRat, Rat.mkRat_eq_div]
  cases b.negative with
  | false => exact (one_mul _).symm
  | true =>
    change ((-(b.num : ℤ) : ℤ) : ℚ) / b.den = -1 * (b.num / b.den)
    rw [Int.cast_neg, Int.cast_natCast, neg_one_mul, neg_div]

/-- A double from zero up of so many units. -/
def Holds (x : Float) (n : ℕ) : Prop := Counts n x.toModel.unpack

def IsInfinite (x : Float) : Prop := x.toModel.unpack = .infinity .positive

theorem Holds.expand {x : Float} {n : ℕ} (h : Holds x n) :
    ∃ b, expand x = .finite b ∧ b.exponent = (excess n : ℤ) - 1074 ∧
      b.mantissa * 2 ^ excess n = n ∧ (b.negative = false ∨ n = 0) := by
  have hx := expand_eq x
  rw [Holds] at h
  rcases h.zero_or_finite with ⟨rfl, s, hu⟩ | ⟨m, e, hm, hu⟩
  · rw [hu] at hx
    exact ⟨_, hx, rfl, rfl, .inr rfl⟩
  · rw [hu] at h hx
    have hn := h.eq_mul
    obtain ⟨-, -, he⟩ := h
    exact ⟨_, hx, he, hn.symm, .inl rfl⟩

theorem Holds.isFinite {x : Float} {n : ℕ} (h : Holds x n) : Datum.isFinite x = true := by
  obtain ⟨b, hb, -⟩ := h.expand
  exact isFinite_eq_true_iff.mpr ⟨b, hb⟩

theorem Holds.lt_beyond {x : Float} {n : ℕ} (h : Holds x n) : n < beyond := by
  obtain ⟨b, hb, he, -⟩ := h.expand
  obtain ⟨k, hk, he', -⟩ := expand_finite hb
  rw [lt_beyond_iff]
  omega

theorem Holds.short {x : Float} {n : ℕ} (h : Holds x n) : Short n := by
  obtain ⟨b, -, -, hn, -⟩ := h.expand
  exact ⟨b.mantissa, by rw [mul_comm]; exact hn.symm⟩

theorem Holds.value {x : Float} {n : ℕ} (h : Holds x n) :
    (Number.ofDouble x : ℚ) = n / unitsOfOne := by
  obtain ⟨b, hb, he, hn, hsign⟩ := h.expand
  rw [ofDouble_of_expand hb, toRat_eq he, hn]
  rcases hsign with hsign | rfl
  · rw [hsign, if_neg Bool.false_ne_true, one_mul]
  · rw [Nat.cast_zero, zero_div, mul_zero]

/-! ## Order -/

/-- Unpacked numbers are compared by exponent and then by mantissa, which is how counts compare. -/
theorem Counts.compare_eq_lt_iff {a b : ℕ} {u v : UnpackedFloat} (hu : Counts a u)
    (hv : Counts b v) : u.compare v = some .lt ↔ a < b := by
  rcases hu.zero_or_finite with ⟨rfl, s, rfl⟩ | ⟨m₁, e₁, hm₁, rfl⟩
  · rcases hv.zero_or_finite with ⟨rfl, t, rfl⟩ | ⟨m₂, e₂, hm₂, rfl⟩
    · exact iff_of_false (by rintro ⟨⟩) (lt_irrefl 0)
    · exact iff_of_true rfl (hv.eq_mul ▸ Nat.mul_pos hm₂ (Nat.two_pow_pos _))
  · rcases hv.zero_or_finite with ⟨rfl, t, rfl⟩ | ⟨m₂, e₂, hm₂, rfl⟩
    · exact iff_of_false (by rintro ⟨⟩) (Nat.not_lt_zero a)
    · obtain ⟨-, rfl, rfl⟩ := hu
      obtain ⟨hb, rfl, rfl⟩ := hv
      change some ((compare ((excess a : ℤ) - 1074) (excess b - 1074)).then (compare _ _)) = _ ↔ _
      rw [Option.some.injEq, Ordering.then_eq_lt, compare_lt_iff_lt, compare_eq_iff_eq,
        compare_lt_iff_lt, lt_iff_places hb, sub_lt_sub_iff_right, sub_left_inj, Nat.cast_lt,
        Nat.cast_inj]

theorem below_iff (x y : Float) :
    Number.below x y = true ↔ x.toModel.unpack.compare y.toModel.unpack = some .lt := by
  change decide (x < y) = true ↔ _
  rw [decide_eq_true_iff]
  change decide (x.toModel < y.toModel) = true ↔ _
  rw [decide_eq_true_iff]
  change UnpackedFloat.lt _ _ = true ↔ _
  rw [UnpackedFloat.lt, beq_iff_eq]

theorem Holds.below_iff {x y : Float} {a b : ℕ} (hx : Holds x a) (hy : Holds y b) :
    Number.below x y = true ↔ a < b := by
  rw [Decimal.below_iff]
  exact Counts.compare_eq_lt_iff hx hy

theorem Holds.below_infinite {x y : Float} {a : ℕ} (hx : Holds x a) (hy : IsInfinite y) :
    Number.below x y = true := by
  rw [Decimal.below_iff, hy]
  rcases hx.zero_or_finite with ⟨-, s, hu⟩ | ⟨m, e, hm, hu⟩ <;>
    (rw [hu]; rfl)

theorem Holds.belowWhole_iff {x : Float} {a : ℕ} (hx : Holds x a) {n : ℤ} (hn : 0 ≤ n) :
    Number.belowWhole x n = true ↔ a < n.toNat * unitsOfOne := by
  have hunits : (0 : ℚ) < unitsOfOne := Nat.cast_pos.mpr unitsOfOne_pos
  have hwhole : (n : ℚ) = (n.toNat : ℚ) := by
    rw [← Int.cast_natCast, Int.toNat_of_nonneg hn]
  rw [Decimal.belowWhole_iff hx.isFinite, hx.value, hwhole, div_lt_iff₀ hunits, ← Nat.cast_mul,
    Nat.cast_lt]

theorem IsInfinite.belowWhole {x : Float} (hx : IsInfinite x) (n : ℤ) :
    Number.belowWhole x n = false := by
  have h : expand x = .infinite false := by
    rw [expand_eq, hx]
    rfl
  simp only [Number.belowWhole, Datum.extentOfDouble, h]
  rfl

/-! ## Finite doubles -/

theorem holds_zero : Holds 0 0 := rfl

theorem holds_or_negative {x : Float} (hx : Datum.isFinite x = true) :
    (∃ n, Holds x n) ∨ (Number.ofDouble x : ℚ) < 0 ∧ Number.below x 0 = true ∧
      Number.below 0 x = false := by
  obtain ⟨b, hb⟩ := isFinite_eq_true_iff.mp hx
  obtain ⟨k, hk, he, hshort, hlong⟩ := expand_finite hb
  have hvalue := ofDouble_of_expand hb
  rw [expand_eq] at hb
  cases hu : x.toModel.unpack with
  | infinity | notANumber =>
    rw [hu] at hb
    cases hb
  | zero s =>
    refine .inl ⟨0, ?_⟩
    rw [Holds, hu]
    rfl
  | finite s m e hm =>
    rw [hu] at hb
    obtain rfl := Expansion.finite.inj hb
    cases s with
    | positive =>
      refine .inl ⟨m * 2 ^ k, ?_⟩
      rw [Holds, hu]
      exact counts_finite hm hshort hlong rfl he
    | negative =>
      have hpos : (0 : ℚ) < (m * 2 ^ k : ℕ) / unitsOfOne :=
        div_pos (Nat.cast_pos.mpr (Nat.mul_pos hm (Nat.two_pow_pos k)))
          (Nat.cast_pos.mpr unitsOfOne_pos)
      refine .inr ⟨?_, ?_, Bool.eq_false_iff.mpr fun h => ?_⟩
      · rw [hvalue, toRat_eq he]
        change (-1 : ℚ) * _ < 0
        rw [neg_one_mul]
        exact neg_lt_zero.mpr hpos
      · rw [below_iff, hu]
        rfl
      · rw [below_iff, hu] at h
        cases h

theorem below_zero_iff {x : Float} (hx : Datum.isFinite x = true) :
    Number.below 0 x = true ↔ 0 < (Number.ofDouble x : ℚ) := by
  rcases holds_or_negative hx with ⟨n, hn⟩ | ⟨hneg, -, hfalse⟩
  · rw [holds_zero.below_iff hn, hn.value, div_pos_iff_of_pos_right, Nat.cast_pos]
    exact Nat.cast_pos.mpr unitsOfOne_pos
  · rw [hfalse]
    exact iff_of_false Bool.false_ne_true hneg.not_gt

/-! ## Sums of doubles -/

theorem toModel_add (x y : Float) : (x + y).toModel.unpack =
    UnpackedFloat.unpack Format.binary64 (UnpackedFloat.pack Format.binary64
      (UnpackedFloat.add Format.binary64 x.toModel.unpack y.toModel.unpack)) := rfl

theorem Holds.add {x y : Float} {a b : ℕ} (hx : Holds x a) (hy : Holds y b) (hb : 0 < b)
    (h : nearest (a + b) < beyond) : Holds (x + y) (nearest (a + b)) := by
  have hsum := counts_add hx hy hb
  obtain ⟨m, e, hm, hu⟩ := hsum.finite_of_pos (nearest_pos (Nat.add_pos_right a hb))
  rw [hu] at hsum
  rw [Holds, toModel_add, hu, unpack_pack_of_lt .positive hsum h]
  exact hsum

theorem Holds.add_infinite {x y : Float} {a b : ℕ} (hx : Holds x a) (hy : Holds y b) (hb : 0 < b)
    (h : beyond ≤ nearest (a + b)) : IsInfinite (x + y) := by
  have hsum := counts_add hx hy hb
  obtain ⟨m, e, hm, hu⟩ := hsum.finite_of_pos (nearest_pos (Nat.add_pos_right a hb))
  rw [hu] at hsum
  rw [IsInfinite, toModel_add, hu, unpack_pack_of_le .positive hsum h]

end Renovation.Decimal
