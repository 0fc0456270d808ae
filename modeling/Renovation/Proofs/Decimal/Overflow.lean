import Renovation.Proofs.Decimal.Difference

set_option autoImplicit false

/-!
# Results that leave the range

The result of an operation on finite doubles is finite exactly if the exact result lies in the range,
that is, if its magnitude is below the first number that rounds to no finite double. What is not
finite stays so, but for a divisor.
-/

namespace Renovation.Decimal

open Float.Model Float.Model.UnpackedFloat

/-- The first number that rounds to no finite double. -/
def rangeEnd : ℕ := twoTo 1024 - twoTo 970

theorem rangeEnd_eq : rangeEnd = (2 ^ 54 - 1) * twoTo 970 := by
  have hlast : twoTo 1024 = twoTo 970 * twoTo 54 := twoTo_add 970 54
  have hwide : twoTo 54 = 2 ^ 54 := rfl
  rw [rangeEnd, hlast, hwide]
  generalize twoTo 970 = step
  omega

theorem lt_rangeEnd_iff {x : ℚ} {t : ℤ} (hpos : 0 < x) (hhigh : x < 2 ^ 53)
    (hlow : t ≤ 971 ∨ 2 ^ 52 ≤ x) :
    x * 2 ^ t < rangeEnd ↔ t ≤ 970 ∨ t = 971 ∧ 2 * x < 2 ^ 54 - 1 := by
  obtain ⟨k, hk⟩ : ∃ k : ℤ, k = 970 := ⟨_, rfl⟩
  have hend : (rangeEnd : ℚ) = (2 ^ 54 - 1) * 2 ^ k := by
    have hmantissa : ((2 ^ 54 - 1 : ℕ) : ℚ) = 2 ^ 54 - 1 := by norm_num
    rw [rangeEnd_eq, twoTo_eq, hk, Nat.cast_mul, hmantissa, Nat.cast_pow]
    exact congrArg _ (zpow_natCast 2 970).symm
  have hstep : (0 : ℚ) < 2 ^ k := zpow_pos two_pos _
  rw [hend]
  rcases lt_trichotomy t (k + 1) with hlt | rfl | hgt
  · have hle : (2 : ℚ) ^ t ≤ 2 ^ k := zpow_le_zpow_right₀ one_le_two (by omega)
    refine iff_of_true ?_ (.inl (by omega))
    calc x * 2 ^ t ≤ x * 2 ^ k := mul_le_mul_of_nonneg_left hle hpos.le
      _ < (2 ^ 54 - 1) * 2 ^ k := mul_lt_mul_of_pos_right (by linarith) hstep
  · rw [or_iff_right (by omega), and_iff_right (by omega), zpow_add_one₀ two_ne_zero,
      mul_comm _ (2 : ℚ), ← mul_assoc, mul_comm x, mul_lt_mul_iff_left₀ hstep]
  · have hlarge : (2 : ℚ) ^ 52 ≤ x := hlow.resolve_left (by omega)
    have hle : (2 : ℚ) ^ (k + 2) ≤ 2 ^ t := zpow_le_zpow_right₀ one_le_two (by omega)
    have htwo : (2 : ℚ) ^ (k + 2) = 2 ^ k * 4 := by
      rw [zpow_add₀ two_ne_zero]
      rfl
    refine iff_of_false (not_lt.mpr ?_) (by omega)
    calc ((2 : ℚ) ^ 54 - 1) * 2 ^ k ≤ 2 ^ 52 * 2 ^ (k + 2) := by
          rw [htwo]
          linarith
      _ ≤ x * 2 ^ t := mul_le_mul hlarge hle (zpow_pos two_pos _).le hpos.le

/-! ## Packing -/

def Proper : UnpackedFloat → Prop
  | .zero _ | .finite .. => True
  | _ => False

theorem isFinite_iff_proper {x : Float} :
    Datum.isFinite x = true ↔ Proper x.toModel.unpack := by
  rw [isFinite_eq_true_iff, expand_eq]
  cases x.toModel.unpack <;> simp [expansion, Proper]

theorem unpack_packedInfinity (s : Sign) :
    UnpackedFloat.unpack Format.binary64 (packedInfinity Format.binary64 s) = .infinity s := by
  cases s <;> rfl

theorem isFinite_pack_finite_iff {s : Sign} {m : ℕ} {e : ℤ} {hm : 0 < m} (hshort : m < 2 ^ 53) :
    Datum.isFinite (.ofModel (Float.Model.pack (.finite s m e hm))) = true ↔ e ≤ 971 := by
  rcases le_or_gt e 971 with hle | hgt
  · exact iff_of_true (isFinite_pack (k := 2046) le_rfl ⟨hshort, by omega⟩) hle
  · have hbias : (Format.binary64.exponentBias : ℤ) = 1023 := rfl
    have hpack : UnpackedFloat.pack Format.binary64 (.finite s m e hm) =
        packedInfinity Format.binary64 s := by
      rw [UnpackedFloat.pack]
      simp only [hbias]
      rw [if_pos (by norm_num; omega)]
    refine iff_of_false ?_ hgt.not_ge
    rw [isFinite_iff_proper]
    change ¬ Proper (UnpackedFloat.unpack Format.binary64
      (UnpackedFloat.pack Format.binary64 (.finite s m e hm)))
    rw [hpack, unpack_packedInfinity]
    exact id

theorem proper_of_isFinite_pack {u : UnpackedFloat}
    (h : Datum.isFinite (.ofModel (Float.Model.pack u)) = true) : Proper u := by
  cases u with
  | zero | finite => trivial
  | notANumber => exact absurd h (by decide +kernel)
  | infinity s => cases s <;> exact absurd h (by decide +kernel)

/-! ## Rounding a quotient -/

theorem le_roundedMantissa (em : ExtendedMantissa) : em.mantissa ≤ em.roundedMantissa := by
  obtain ⟨m, round, sticky⟩ := em
  cases round <;> cases sticky <;>
    simp [ExtendedMantissa.roundedMantissa, ExtendedMantissa.accuracy,
      Accuracy.roundToNearestEven]

/-- The longest mantissa is odd, so a half is enough to carry. -/
theorem roundedMantissa_lt_iff {em : ExtendedMantissa} (h : em.mantissa < 2 ^ 53) :
    em.roundedMantissa < 2 ^ 53 ↔
      2 * em.mantissa + (if em.roundBit then 1 else 0) < 2 ^ 54 - 1 := by
  obtain ⟨m, round, sticky⟩ := em
  cases round <;> cases sticky <;>
    simp [ExtendedMantissa.roundedMantissa, ExtendedMantissa.accuracy,
      Accuracy.roundToNearestEven] at h ⊢ <;> omega

/-- The mantissa and the accuracy of a quotient, with its bits from some place on shifted out. -/
def quotient (num den k : ℕ) : ExtendedMantissa :=
  ExtendedMantissa.ofMantissaAndAccuracy (num / den) (accuracyOfFraction (num % den) den) >>> k

theorem mantissa_ofMantissaAndAccuracy (m : ℕ) (accuracy : Accuracy) :
    (ExtendedMantissa.ofMantissaAndAccuracy m accuracy).mantissa = m := by
  rcases accuracy with _ | (_ | _ | _) <;> rfl

theorem mantissa_quotient (num den k : ℕ) :
    (quotient num den k).mantissa = num / (den * 2 ^ k) := by
  rw [quotient, mantissa_shiftRight, mantissa_ofMantissaAndAccuracy, Nat.div_div_eq_div_mul]

theorem roundBit_quotient {den : ℕ} (hden : 0 < den) (num k : ℕ) :
    (quotient num den k).roundBit = (2 * num / (den * 2 ^ k) % 2 != 0) := by
  cases k with
  | zero =>
    have hrest : num % den < den := Nat.mod_lt _ hden
    have hsplit : 2 * num / den = 2 * (num / den) + 2 * (num % den) / den := by
      conv_lhs => rw [← Nat.div_add_mod num den, mul_add, mul_left_comm,
        Nat.mul_add_div hden]
    rw [pow_zero, mul_one, hsplit, Nat.mul_add_mod]
    change (ExtendedMantissa.ofMantissaAndAccuracy _ (accuracyOfFraction _ _)).roundBit = _
    unfold accuracyOfFraction
    split
    · rename_i hzero
      rw [hzero, mul_zero, Nat.zero_div]
      rfl
    · rcases Nat.lt_trichotomy (2 * (num % den)) den with hlt | heq | hgt
      · rw [Nat.compare_eq_lt.mpr hlt, Nat.div_eq_of_lt hlt]
        rfl
      · rw [Nat.compare_eq_eq.mpr heq, heq, Nat.div_self hden]
        rfl
      · have hone : 2 * (num % den) / den = 1 := by
          rw [Nat.div_eq_iff hden]
          omega
        rw [Nat.compare_eq_gt.mpr hgt, hone]
        rfl
  | succ k =>
    have hbit : (quotient num den (k + 1)).roundBit = ((quotient num den k).mantissa % 2 != 0) :=
      rfl
    rw [hbit, mantissa_quotient, pow_succ, ← mul_assoc, mul_comm _ 2,
      Nat.mul_div_mul_left _ _ two_pos]

theorem rounded_quotient_lt_iff {den : ℕ} (hden : 0 < den) {num k : ℕ}
    (h : num / (den * 2 ^ k) < 2 ^ 53) :
    (quotient num den k).roundedMantissa < 2 ^ 53 ↔ 2 * num < (2 ^ 54 - 1) * (den * 2 ^ k) := by
  have hscale : 0 < den * 2 ^ k := Nat.mul_pos hden (Nat.two_pow_pos k)
  have hhalf : num / (den * 2 ^ k) = 2 * num / (den * 2 ^ k) / 2 := by
    rw [Nat.div_div_eq_div_mul, mul_comm _ 2, Nat.mul_div_mul_left _ _ two_pos]
  rw [roundedMantissa_lt_iff (by rwa [mantissa_quotient]), mantissa_quotient,
    roundBit_quotient hden, ← Nat.div_lt_iff_lt_mul hscale, hhalf]
  generalize 2 * num / (den * 2 ^ k) = twice
  rcases Nat.mod_two_eq_zero_or_one twice with heven | hodd
  · simp only [heven, bne_self_eq_false, Bool.false_eq_true, if_false]
    omega
  · simp only [hodd, bne_iff_ne, ne_eq, one_ne_zero, not_false_eq_true, if_true]
    omega

theorem rounded_bounds {m r : ℕ} {e : ℤ} {accuracy : Accuracy}
    (hr : (ExtendedMantissa.ofMantissaAndAccuracy m accuracy >>> surplus m e).roundedMantissa = r) :
    m / 2 ^ surplus m e ≤ r ∧ r ≤ 2 ^ 53 := by
  have hlt := div_surplus_lt m e
  have hle := le_roundedMantissa
    (ExtendedMantissa.ofMantissaAndAccuracy m accuracy >>> surplus m e)
  have hge := roundedMantissa_le
    (ExtendedMantissa.ofMantissaAndAccuracy m accuracy >>> surplus m e)
  rw [hr, mantissa_shiftRight, mantissa_ofMantissaAndAccuracy] at hle hge
  refine ⟨hle, ?_⟩
  split at hge <;> omega

theorem eq_zero_of_div_surplus {r : ℕ} {e : ℤ} (hr : r ≤ 2 ^ 53) (he : -1074 ≤ e)
    (h : r / 2 ^ surplus r e = 0) : r = 0 := by
  have hcarry := surplus_of_le hr he
  rw [Nat.div_eq_zero_iff_lt (Nat.two_pow_pos _)] at h
  rcases Nat.lt_or_ge r (2 ^ 53) with hlt | hge
  · have hnone : surplus r e = 0 := by
      rw [if_pos hlt] at hcarry
      omega
    rw [hnone] at h
    omega
  · have hone : surplus r e = 1 := by
      rw [if_neg hge.not_gt] at hcarry
      omega
    rw [hone] at h
    omega

theorem low_or_long {m : ℕ} {e : ℤ} (h : e ≤ 971 ∨ 2 ^ 52 ≤ m) :
    e + surplus m e ≤ 971 ∨ 2 ^ 52 ≤ m / 2 ^ surplus m e := by
  have hsurplus := surplus_eq m e
  generalize surplus m e = k at hsurplus ⊢
  rcases Nat.eq_zero_or_pos k with rfl | hpos
  · simpa using h
  · rcases le_or_gt (e + k) 971 with hle | hgt
    · exact .inl hle
    · have hlog : m.log2 = 52 + k := by omega
      have hne : m ≠ 0 := by
        rintro rfl
        rw [show Nat.log2 0 = 0 from rfl] at hlog
        omega
      refine .inr ((Nat.le_div_iff_mul_le (Nat.two_pow_pos k)).mpr ?_)
      rw [← pow_add, ← hlog]
      exact Nat.log2_self_le hne

theorem isFinite_roundWithAccuracy_iff (sign : Sign) {m r : ℕ} {e : ℤ} {accuracy : Accuracy}
    (hr : (ExtendedMantissa.ofMantissaAndAccuracy m accuracy >>> surplus m e).roundedMantissa = r)
    (hlow : e ≤ 971 ∨ 2 ^ 52 ≤ m) :
    Datum.isFinite (.ofModel (Float.Model.pack
      (roundWithAccuracy Format.binary64 sign m e accuracy))) = true ↔
      e + surplus m e ≤ 970 ∨ e + surplus m e = 971 ∧ r < 2 ^ 53 := by
  obtain ⟨hfloor, hle⟩ := rounded_bounds hr
  have hleast : -1074 ≤ e + surplus m e := by
    have := surplus_eq m e
    omega
  rw [roundWithAccuracy_of_rounded sign hr]
  split
  · rename_i hzero
    have hlong := low_or_long hlow
    obtain rfl := eq_zero_of_div_surplus hle hleast hzero
    refine iff_of_true (isFinite_pack (k := 2046) le_rfl trivial) ?_
    omega
  · have hcarry := surplus_of_le hle hleast
    rw [isFinite_pack_finite_iff (div_surplus_lt r _)]
    split at hcarry <;> omega

/-- Rounding a fraction of units of some power of two gives a finite double exactly if the fraction
lies in the range. -/
theorem isFinite_round_quotient_iff (sign : Sign) {num den : ℕ} (hnum : 0 < num) (hden : 0 < den)
    {e : ℤ} (hlow : e ≤ 971 ∨ 2 ^ 52 ≤ num / den) :
    Datum.isFinite (.ofModel (Float.Model.pack (roundWithAccuracy Format.binary64 sign
      (num / den) e (accuracyOfFraction (num % den) den)))) = true ↔
      (num / den * 2 ^ e : ℚ) < rangeEnd := by
  have hshort := div_surplus_lt (num / den) e
  have hlong := low_or_long hlow
  rw [isFinite_roundWithAccuracy_iff sign rfl hlow]
  generalize surplus (num / den) e = k at hshort hlong ⊢
  have hscale : 0 < den * 2 ^ k := Nat.mul_pos hden (Nat.two_pow_pos k)
  have hscale' : (0 : ℚ) < (den * 2 ^ k : ℕ) := Nat.cast_pos.mpr hscale
  have hvalue : (num / den * 2 ^ e : ℚ) = num / (den * 2 ^ k : ℕ) * 2 ^ (e + k) := by
    rw [zpow_add₀ two_ne_zero, zpow_natCast, Nat.cast_mul, Nat.cast_pow, Nat.cast_ofNat]
    field_simp
  have hcast : 2 * num < (2 ^ 54 - 1) * (den * 2 ^ k) ↔
      (2 * num : ℚ) < (2 ^ 54 - 1) * (den * 2 ^ k : ℕ) := by
    rw [← Nat.cast_lt (α := ℚ)]
    norm_num
  rw [Nat.div_div_eq_div_mul] at hshort hlong
  have hrounded := rounded_quotient_lt_iff hden hshort
  rw [hvalue, lt_rangeEnd_iff]
  · change _ ∨ _ ∧ (quotient num den k).roundedMantissa < 2 ^ 53 ↔ _
    rw [hrounded, ← mul_div_assoc, div_lt_iff₀ hscale', hcast]
  · exact div_pos (Nat.cast_pos.mpr hnum) hscale'
  · rw [Nat.div_lt_iff_lt_mul hscale] at hshort
    rw [div_lt_iff₀ hscale']
    exact_mod_cast hshort
  · rw [Nat.le_div_iff_mul_le hscale] at hlong
    rw [le_div_iff₀ hscale']
    exact_mod_cast hlong

/-! ## Products and quotients -/

theorem magnitude_eq {b : Binary} {k : ℕ} (he : b.exponent = (k : ℤ) - 1074) :
    |b.toRat| = b.mantissa * 2 ^ b.exponent := by
  obtain ⟨j, hj⟩ : ∃ j : ℕ, j = 1074 := ⟨_, rfl⟩
  have hunits : (unitsOfOne : ℚ) = 2 ^ j := by
    rw [unitsOfOne, twoTo_eq, hj, Nat.cast_pow, Nat.cast_ofNat]
  have hexponent : b.exponent = (k : ℤ) - j := by omega
  have hsign : |(if b.negative then -1 else 1 : ℚ)| = 1 := by
    split <;> simp
  have hpos : (0 : ℚ) ≤ (b.mantissa * 2 ^ k : ℕ) / unitsOfOne :=
    div_nonneg (Nat.cast_nonneg _) (Nat.cast_nonneg _)
  rw [toRat_eq he, abs_mul, hsign, one_mul, abs_of_nonneg hpos, hexponent,
    zpow_sub₀ two_ne_zero, zpow_natCast, zpow_natCast, hunits, Nat.cast_mul, Nat.cast_pow,
    Nat.cast_ofNat, mul_div_assoc]

theorem exists_parts {x : Float} (hx : Datum.isFinite x = true) :
    (∃ s, x.toModel.unpack = .zero s ∧ (Number.ofDouble x : ℚ) = 0) ∨
      ∃ s m e hm, x.toModel.unpack = .finite s m e hm ∧ m < 2 ^ 53 ∧ e ≤ 971 ∧
        (2 ^ 52 ≤ m ∨ e = -1074) ∧ |(Number.ofDouble x : ℚ)| = m * 2 ^ e := by
  obtain ⟨b, hb⟩ := isFinite_eq_true_iff.mp hx
  obtain ⟨k, hk, he, hshort, hlong⟩ := expand_finite hb
  have hmagnitude := magnitude_eq he
  rw [ofDouble_of_expand hb]
  rw [expand_eq] at hb
  cases hu : x.toModel.unpack with
  | infinity | notANumber =>
    rw [hu] at hb
    cases hb
  | zero s =>
    rw [hu] at hb
    obtain rfl := Expansion.finite.inj hb
    refine .inl ⟨s, rfl, abs_eq_zero.mp ?_⟩
    rw [hmagnitude, Nat.cast_zero, zero_mul]
  | finite s m e hm =>
    rw [hu] at hb
    obtain rfl := Expansion.finite.inj hb
    have hexponent : e = (k : ℤ) - 1074 := he
    have hhigh : e ≤ 971 := by omega
    exact .inr ⟨s, m, e, hm, rfl, hshort, hhigh, hlong.imp_right (by omega), hmagnitude⟩

theorem isFinite_zero (s : Sign) :
    Datum.isFinite (.ofModel (Float.Model.pack (.zero s))) = true :=
  isFinite_pack (k := 2046) le_rfl trivial

theorem zero_lt_rangeEnd : (0 : ℚ) < rangeEnd := by
  rw [rangeEnd_eq, Nat.cast_pos]
  exact Nat.mul_pos (by norm_num) (twoTo_pos 970)

theorem isFinite_mul_iff {x y : Float} (hx : Datum.isFinite x = true)
    (hy : Datum.isFinite y = true) : Datum.isFinite (x * y) = true ↔
      |(Number.ofDouble x * Number.ofDouble y : ℚ)| < rangeEnd := by
  change Datum.isFinite (.ofModel (Float.Model.pack (UnpackedFloat.mul Format.binary64
    x.toModel.unpack y.toModel.unpack))) = true ↔ _
  rcases exists_parts hx with ⟨s, hux, hzero⟩ | ⟨s₁, m₁, e₁, hm₁, hux, hs₁, he₁, hl₁, hvx⟩
  · rw [hzero, zero_mul, abs_zero, hux]
    refine iff_of_true ?_ zero_lt_rangeEnd
    rcases exists_parts hy with ⟨t, huy, -⟩ | ⟨t, m, e, hm, huy, -⟩ <;>
    · rw [huy]
      exact isFinite_zero _
  rcases exists_parts hy with ⟨t, huy, hzero⟩ | ⟨s₂, m₂, e₂, hm₂, huy, hs₂, he₂, hl₂, hvy⟩
  · rw [hzero, mul_zero, abs_zero, hux, huy]
    exact iff_of_true (isFinite_zero _) zero_lt_rangeEnd
  have hlow : e₁ + e₂ ≤ 971 ∨ 2 ^ 52 ≤ m₁ * m₂ / 1 := by
    rcases le_or_gt (e₁ + e₂) 971 with hle | hgt
    · exact .inl hle
    · have hlong : 2 ^ 52 ≤ m₁ := hl₁.resolve_right (by omega)
      rw [Nat.div_one]
      exact .inr (hlong.trans (Nat.le_mul_of_pos_right m₁ hm₂))
  have hround := isFinite_round_quotient_iff (s₁ * s₂) (Nat.mul_pos hm₁ hm₂) one_pos hlow
  have hvalue : |(Number.ofDouble x * Number.ofDouble y : ℚ)| =
      (m₁ * m₂ : ℕ) / (1 : ℕ) * 2 ^ (e₁ + e₂) := by
    rw [abs_mul, hvx, hvy, zpow_add₀ two_ne_zero]
    push_cast
    ring
  have hexact : accuracyOfFraction (m₁ * m₂ % 1) 1 = .exact := by
    rw [Nat.mod_one]
    rfl
  rw [hexact, Nat.div_one] at hround
  rw [hux, huy, hvalue, ← hround]
  rfl

theorem long_quotient {m₁ m₂ p : ℕ} (hm₁ : 0 < m₁) (hm₂ : 0 < m₂)
    (h : 53 + m₂.log2 ≤ m₁.log2 + p) : 2 ^ 52 ≤ m₁ * 2 ^ p / m₂ := by
  rw [Nat.le_div_iff_mul_le hm₂]
  calc 2 ^ 52 * m₂ ≤ 2 ^ 52 * 2 ^ (m₂.log2 + 1) := Nat.mul_le_mul_left _ Nat.lt_log2_self.le
    _ = 2 ^ (53 + m₂.log2) := by rw [← pow_add]; congr 1; omega
    _ ≤ 2 ^ (m₁.log2 + p) := Nat.pow_le_pow_right two_pos h
    _ = 2 ^ m₁.log2 * 2 ^ p := pow_add 2 _ _
    _ ≤ m₁ * 2 ^ p := Nat.mul_le_mul_right _ (Nat.log2_self_le hm₁.ne')

theorem isFinite_div_iff {x y : Float} (hx : Datum.isFinite x = true)
    (hy : Datum.isFinite y = true) (hne : (Number.ofDouble y : ℚ) ≠ 0) :
    Datum.isFinite (x / y) = true ↔
      |(Number.ofDouble x / Number.ofDouble y : ℚ)| < rangeEnd := by
  change Datum.isFinite (.ofModel (Float.Model.pack (UnpackedFloat.div Format.binary64
    x.toModel.unpack y.toModel.unpack))) = true ↔ _
  rcases exists_parts hy with ⟨t, -, hzero⟩ | ⟨s₂, m₂, e₂, hm₂, huy, hs₂, he₂, hl₂, hvy⟩
  · exact absurd hzero hne
  rcases exists_parts hx with ⟨s, hux, hzero⟩ | ⟨s₁, m₁, e₁, hm₁, hux, hs₁, he₁, hl₁, hvx⟩
  · rw [hzero, zero_div, abs_zero, hux, huy]
    exact iff_of_true (isFinite_zero _) zero_lt_rangeEnd
  obtain ⟨e, he⟩ : ∃ e : ℤ, e = min (e₁ - e₂) (Format.binary64.targetExponent
    (totalExponent m₁ e₁ - totalExponent m₂ e₂)) := ⟨_, rfl⟩
  obtain ⟨p, hp⟩ : ∃ p : ℕ, p = (e₁ - e₂ - e).toNat := ⟨_, rfl⟩
  have htarget : Format.binary64.targetExponent (totalExponent m₁ e₁ - totalExponent m₂ e₂) =
      max ((m₁.log2 + 1 + e₁ - (m₂.log2 + 1 + e₂) : ℤ) - 53) (-1074) := rfl
  have hlow : e ≤ 971 ∨ 2 ^ 52 ≤ m₁ * 2 ^ p / m₂ := by
    rcases le_or_gt e 971 with hle | hgt
    · exact .inl hle
    · exact .inr (long_quotient hm₁ hm₂ (by omega))
  have hround := isFinite_round_quotient_iff (s₁ / s₂) (Nat.mul_pos hm₁ (Nat.two_pow_pos p)) hm₂ hlow
  have hvalue : |(Number.ofDouble x / Number.ofDouble y : ℚ)| =
      (m₁ * 2 ^ p : ℕ) / m₂ * 2 ^ e := by
    have hexponent : e₁ = e₂ + p + e := by omega
    rw [abs_div, hvx, hvy, hexponent, zpow_add₀ two_ne_zero, zpow_add₀ two_ne_zero, zpow_natCast]
    push_cast
    field_simp
  rw [hux, huy, hvalue, ← hround, he, hp, he, ← Nat.shiftLeft_eq]
  rfl

/-! ## Sums and differences -/

theorem add_eq_sub_neg (u v : UnpackedFloat) :
    UnpackedFloat.add Format.binary64 u v = UnpackedFloat.sub Format.binary64 u v.neg := by
  cases u with
  | notANumber => cases v <;> rfl
  | infinity s =>
    cases v with
    | infinity t => cases s <;> cases t <;> rfl
    | zero | finite | notANumber => rfl
  | zero s =>
    cases v with
    | zero t => cases s <;> cases t <;> rfl
    | infinity t | finite t => cases t <;> rfl
    | notANumber => rfl
  | finite s m₁ e₁ hm₁ =>
    cases v with
    | infinity t => cases t <;> rfl
    | zero | notANumber => rfl
    | finite t m₂ e₂ hm₂ =>
      simp [UnpackedFloat.add, UnpackedFloat.sub, UnpackedFloat.neg, apply_neg]

theorem natAbs_nearestInt (z : ℤ) : (nearestInt z).natAbs = nearest z.natAbs := by
  obtain ⟨n, rfl | rfl⟩ := z.eq_nat_or_neg
  · rw [nearestInt_natCast, Int.natAbs_natCast, Int.natAbs_natCast]
  · rw [nearestInt_neg, nearestInt_natCast, Int.natAbs_neg, Int.natAbs_neg, Int.natAbs_natCast,
      Int.natAbs_natCast]

theorem nearest_lt_iff (n k : ℕ) : nearest n < 2 ^ (54 + k) ↔ n < (2 ^ 54 - 1) * 2 ^ k := by
  have hpos := Nat.two_pow_pos k
  have hhalf : (2 ^ 54 - 1) * 2 ^ k = (2 ^ 53 - 1) * 2 ^ (k + 1) + 2 ^ k := by
    rw [pow_succ]
    omega
  have hend : 2 ^ (54 + k) = 2 ^ 53 * 2 ^ (k + 1) := by
    rw [← pow_add]
    congr 1
    omega
  rw [hhalf, hend]
  constructor
  · intro h
    by_contra hge
    have hup := nearest_mono (not_lt.mp hge)
    rw [nearest_mul_add (by norm_num) (by norm_num) (Nat.pow_lt_pow_right one_lt_two k.lt_succ_self),
      if_neg (by rw [pow_succ]; omega)] at hup
    omega
  · intro h
    have hdown := nearest_mono (Nat.le_sub_one_of_lt h)
    rw [Nat.add_sub_assoc hpos, nearest_mul_add (by norm_num) (by norm_num) (by rw [pow_succ]; omega),
      if_pos (.inl (by rw [pow_succ]; omega))] at hdown
    refine hdown.trans_lt (Nat.mul_lt_mul_of_pos_right (by norm_num) (Nat.two_pow_pos _))

theorem nearest_lt_beyond_iff (n : ℕ) : nearest n < beyond ↔ n < rangeEnd * unitsOfOne := by
  obtain ⟨k, hk⟩ : ∃ k, k = 2044 := ⟨_, rfl⟩
  have hlast : beyond = 2 ^ (54 + k) := by rw [beyond, twoTo_eq, hk]
  have hunits : rangeEnd * unitsOfOne = (2 ^ 54 - 1) * 2 ^ k := by
    rw [rangeEnd_eq, unitsOfOne, mul_assoc, ← twoTo_add, twoTo_eq, hk]
  rw [hlast, hunits, nearest_lt_iff]

theorem isFinite_pack_iff {z : ℤ} {u : UnpackedFloat} (h : CountsInt z u) :
    Datum.isFinite (.ofModel (Float.Model.pack u)) = true ↔ z.natAbs < beyond := by
  cases u with
  | infinity | notANumber => exact h.elim
  | zero s =>
    obtain rfl := h
    exact iff_of_true (isFinite_zero s) (twoTo_pos _)
  | finite s m e hm =>
    obtain ⟨⟨-, rfl, rfl⟩, -⟩ := h
    have hshort : z.natAbs / 2 ^ excess z.natAbs < 2 ^ 53 := by
      rw [Nat.div_lt_iff_lt_mul (Nat.two_pow_pos _), ← pow_add]
      exact lt_two_pow_excess _
    rw [isFinite_pack_finite_iff hshort, lt_beyond_iff]
    omega

theorem natAbs_lt_rangeEnd_iff (z : ℤ) :
    z.natAbs < rangeEnd * unitsOfOne ↔ |(z : ℚ) / unitsOfOne| < rangeEnd := by
  have hunits : (0 : ℚ) < unitsOfOne := Nat.cast_pos.mpr unitsOfOne_pos
  rw [abs_div, abs_of_pos hunits, div_lt_iff₀ hunits, ← Int.cast_abs, ← Nat.cast_natAbs,
    ← Nat.cast_mul, Nat.cast_lt]

theorem isFinite_sub_iff {x y : Float} (hx : Datum.isFinite x = true)
    (hy : Datum.isFinite y = true) : Datum.isFinite (x - y) = true ↔
      |(Number.ofDouble x - Number.ofDouble y : ℚ)| < rangeEnd := by
  obtain ⟨a, ha⟩ := exists_holdsInt hx
  obtain ⟨b, hb⟩ := exists_holdsInt hy
  refine (isFinite_pack_iff (countsInt_sub ha hb)).trans ?_
  rw [natAbs_nearestInt, nearest_lt_beyond_iff, natAbs_lt_rangeEnd_iff, ha.value, hb.value,
    Int.cast_sub, sub_div]

theorem isFinite_add_iff {x y : Float} (hx : Datum.isFinite x = true)
    (hy : Datum.isFinite y = true) : Datum.isFinite (x + y) = true ↔
      |(Number.ofDouble x + Number.ofDouble y : ℚ)| < rangeEnd := by
  obtain ⟨a, ha⟩ := exists_holdsInt hx
  obtain ⟨b, hb⟩ := exists_holdsInt hy
  have hsum : CountsInt (nearestInt (a - -b))
      (UnpackedFloat.add Format.binary64 x.toModel.unpack y.toModel.unpack) := by
    rw [add_eq_sub_neg]
    exact countsInt_sub ha (countsInt_neg hb)
  refine (isFinite_pack_iff hsum).trans ?_
  rw [natAbs_nearestInt, nearest_lt_beyond_iff, natAbs_lt_rangeEnd_iff, ha.value, hb.value,
    sub_neg_eq_add, Int.cast_add, add_div]

/-! ## Operands that are not finite -/

theorem proper_of_mul {u v : UnpackedFloat} (h : Proper (UnpackedFloat.mul Format.binary64 u v)) :
    Proper u ∧ Proper v := by
  cases u <;> cases v <;> first | exact ⟨trivial, trivial⟩ | exact h.elim

theorem proper_of_div {u v : UnpackedFloat} (hv : Proper v)
    (h : Proper (UnpackedFloat.div Format.binary64 u v)) : Proper u := by
  cases u <;> cases v <;> trivial

theorem proper_of_sub {u v : UnpackedFloat} (h : Proper (UnpackedFloat.sub Format.binary64 u v)) :
    Proper u ∧ Proper v := by
  cases u <;> cases v <;> first
    | exact ⟨trivial, trivial⟩
    | exact h.elim
    | -- two infinities come to one of them or to nothing
      rw [UnpackedFloat.sub] at h
      split at h <;> exact h.elim

theorem proper_neg {u : UnpackedFloat} : Proper u.neg ↔ Proper u := by
  cases u <;> rfl

theorem isFinite_of_mul {x y : Float} (h : Datum.isFinite (x * y) = true) :
    Datum.isFinite x = true ∧ Datum.isFinite y = true := by
  rw [isFinite_iff_proper, isFinite_iff_proper]
  exact proper_of_mul (proper_of_isFinite_pack h)

theorem isFinite_of_div {x y : Float} (hy : Datum.isFinite y = true)
    (h : Datum.isFinite (x / y) = true) : Datum.isFinite x = true := by
  rw [isFinite_iff_proper] at hy ⊢
  exact proper_of_div hy (proper_of_isFinite_pack h)

theorem isFinite_of_sub {x y : Float} (h : Datum.isFinite (x - y) = true) :
    Datum.isFinite x = true ∧ Datum.isFinite y = true := by
  rw [isFinite_iff_proper, isFinite_iff_proper]
  exact proper_of_sub (proper_of_isFinite_pack h)

theorem isFinite_of_add {x y : Float} (h : Datum.isFinite (x + y) = true) :
    Datum.isFinite x = true ∧ Datum.isFinite y = true := by
  have hproper : Proper (UnpackedFloat.add Format.binary64 x.toModel.unpack y.toModel.unpack) :=
    proper_of_isFinite_pack h
  rw [add_eq_sub_neg] at hproper
  rw [isFinite_iff_proper, isFinite_iff_proper, ← @proper_neg y.toModel.unpack]
  exact proper_of_sub hproper

end Renovation.Decimal
