import Mathlib
import Renovation.Proofs.Decimal.Nearest
import Renovation.Proofs.Decimal.Whole

set_option autoImplicit false

/-!
# Sums that are rounded

Numbers from zero up that are taken apart into mantissa and exponent stand for a count of units of
the smallest double. Their sum is the short number nearest to the sum of the counts, and it is
packed into the double of that count if there is one.
-/

namespace Renovation.Decimal

open Float.Model Float.Model.UnpackedFloat

/-! ## Rounding in the model -/

theorem stickyBit_shiftRight_succ (m k : ℕ) :
    ((ExtendedMantissa.mk m false false) >>> (k + 1)).stickyBit = (m % 2 ^ k != 0) := by
  induction k with
  | zero =>
    rw [pow_zero, Nat.mod_one]
    rfl
  | succ k ih =>
    have hstep : ((ExtendedMantissa.mk m false false) >>> (k + 1 + 1)).stickyBit =
        (((ExtendedMantissa.mk m false false) >>> (k + 1)).roundBit ||
          ((ExtendedMantissa.mk m false false) >>> (k + 1)).stickyBit) := rfl
    rw [hstep, roundBit_shiftRight_succ, ih, Nat.mod_pow_succ, Bool.eq_iff_iff]
    have hpos := Nat.two_pow_pos k
    simp only [Bool.or_eq_true, bne_iff_ne, ne_eq, Nat.add_eq_zero_iff, mul_eq_zero, hpos.ne',
      false_or]
    tauto

theorem roundedMantissa_shiftRight (m k : ℕ) :
    ((ExtendedMantissa.mk m false false) >>> k).roundedMantissa = halfEven m k := by
  cases k with
  | zero =>
    rw [halfEven, pow_zero, Nat.mod_one, Nat.div_one, if_pos (.inl (by decide))]
    rfl
  | succ k =>
    have hmantissa := mantissa_shiftRight ⟨m, false, false⟩ (k + 1)
    have hround := roundBit_shiftRight_succ m k
    have hsticky := stickyBit_shiftRight_succ m k
    generalize (ExtendedMantissa.mk m false false) >>> (k + 1) = em at hmantissa hround hsticky ⊢
    obtain ⟨q, round, sticky⟩ := em
    dsimp only at hmantissa hround hsticky
    have hlow : m % 2 ^ k < 2 ^ k := Nat.mod_lt _ (Nat.two_pow_pos k)
    have hhalf := pow_succ 2 k
    rw [halfEven, Nat.mod_pow_succ, ← hmantissa, hround, hsticky]
    rcases Nat.mod_two_eq_zero_or_one (m / 2 ^ k) with hbit | hbit
    · rw [hbit, if_pos (.inl (by omega))]
      cases m % 2 ^ k != 0 <;> rfl
    rw [hbit, mul_one, if_congr (or_iff_right (by omega)) rfl rfl]
    by_cases htie : m % 2 ^ k = 0
    · rw [htie, if_congr (and_iff_right (by omega)) rfl rfl]
      change q + q % 2 = _
      split <;> omega
    · rw [if_neg (fun h => by omega), bne_iff_ne.mpr htie]
      rfl

theorem rounded_eq (m : ℕ) (e : ℤ) : rounded m e = halfEven m (surplus m e) :=
  roundedMantissa_shiftRight m _

/-! ## Units -/

/-- An unpacked number from zero up stands for a count of units of the smallest double. -/
def Counts (n : ℕ) : UnpackedFloat → Prop
  | .zero _ => n = 0
  | .finite .positive m e _ => Short n ∧ m = n / 2 ^ excess n ∧ e = excess n - 1074
  | _ => False

theorem Counts.zero_or_finite {n : ℕ} {u : UnpackedFloat} (h : Counts n u) :
    (n = 0 ∧ ∃ s, u = .zero s) ∨ ∃ m e hm, u = .finite .positive m e hm := by
  cases u with
  | infinity | notANumber => exact h.elim
  | zero s => exact .inl ⟨h, s, rfl⟩
  | finite s m e hm =>
    cases s with
    | negative => exact h.elim
    | positive => exact .inr ⟨m, e, hm, rfl⟩

theorem Counts.finite_of_pos {n : ℕ} {u : UnpackedFloat} (h : Counts n u) (hn : 0 < n) :
    ∃ m e hm, u = .finite .positive m e hm :=
  h.zero_or_finite.resolve_left fun hzero => hn.ne' hzero.1

theorem counts_finite {n m k : ℕ} {e : ℤ} (hm : 0 < m) (hshort : m < 2 ^ 53)
    (hlong : 2 ^ 52 ≤ m ∨ k = 0) (hn : n = m * 2 ^ k) (he : e = k - 1074) :
    Counts n (.finite .positive m e hm) := by
  subst hn he
  have hexcess : excess (m * 2 ^ k) = k := by
    rcases hlong with hlong | rfl
    · refine excess_eq ?_ ?_
      · rw [pow_add]
        exact Nat.mul_le_mul_right _ hlong
      · rw [pow_add]
        exact Nat.mul_lt_mul_of_pos_right hshort (Nat.two_pow_pos k)
    · rw [pow_zero, mul_one]
      exact excess_eq_zero hshort
  refine ⟨short_mul_two_pow hshort.le k, ?_, ?_⟩
  · rw [hexcess, Nat.mul_div_cancel _ (Nat.two_pow_pos k)]
  · rw [hexcess]

theorem surplus_add {m k : ℕ} (hm : 0 < m) (hlong : 2 ^ 52 ≤ m ∨ k = 0) :
    surplus m (k - 1074) + k = excess (m * 2 ^ k) := by
  have hlog : (m * 2 ^ k).log2 = m.log2 + k := by
    refine (Nat.log2_eq_iff (Nat.mul_pos hm (Nat.two_pow_pos k)).ne').mpr ⟨?_, ?_⟩
    · rw [pow_add]
      exact Nat.mul_le_mul_right _ (Nat.log2_self_le hm.ne')
    · rw [add_right_comm, pow_add]
      exact Nat.mul_lt_mul_of_pos_right Nat.lt_log2_self (Nat.two_pow_pos k)
  have hlow : 52 ≤ m.log2 ∨ k = 0 := hlong.imp_left fun h => (Nat.le_log2 hm.ne').mpr h
  have hsurplus := surplus_eq m (k - 1074)
  rw [excess, hlog]
  omega

theorem rounded_carry {m k : ℕ} (hlong : 2 ^ 52 ≤ rounded m (k - 1074) ∨
    surplus m (k - 1074) + k = 0) :
    let r := rounded m (k - 1074)
    let carry := surplus r (k - 1074 + surplus m (k - 1074))
    r / 2 ^ carry * 2 ^ carry = r ∧ r / 2 ^ carry < 2 ^ 53 ∧
      (2 ^ 52 ≤ r / 2 ^ carry ∨ surplus m (k - 1074) + k + carry = 0) := by
  intro r carry
  have hle : r ≤ 2 ^ 53 := rounded_le m (k - 1074)
  have hcarry : (carry : ℤ) = if r < 2 ^ 53 then 0 else 1 := surplus_rounded m (k - 1074)
  rcases Nat.lt_or_ge r (2 ^ 53) with hlt | hge
  · have hzero : carry = 0 := by
      rw [if_pos hlt] at hcarry
      omega
    rw [hzero, pow_zero, Nat.div_one, mul_one, add_zero]
    exact ⟨rfl, hlt, hlong⟩
  · have hone : carry = 1 := by
      rw [if_neg (Nat.not_lt.mpr hge)] at hcarry
      omega
    rw [hone, le_antisymm hle hge]
    exact ⟨by norm_num, by norm_num, .inl (by norm_num)⟩

/-- The mantissa is rounded to its places, and what rounding carried too far is shifted out. -/
theorem roundWithAccuracy_of_rounded (sign : Sign) {m r : ℕ} {e : ℤ} {accuracy : Accuracy}
    (hr : (ExtendedMantissa.ofMantissaAndAccuracy m accuracy >>> surplus m e).roundedMantissa = r) :
    roundWithAccuracy Format.binary64 sign m e accuracy =
      if h : r / 2 ^ surplus r (e + surplus m e) = 0 then .zero sign
      else .finite sign (r / 2 ^ surplus r (e + surplus m e))
        (e + surplus m e + surplus r (e + surplus m e)) (Nat.pos_of_ne_zero h) := by
  have hmantissa := mantissa_shiftRight ⟨r, false, false⟩ (surplus r (e + surplus m e))
  dsimp only at hmantissa
  generalize hq : r / 2 ^ surplus r (e + surplus m e) = q at hmantissa ⊢
  clear hq
  subst hmantissa
  subst hr
  rfl

theorem roundWithAccuracy_eq (sign : Sign) (m : ℕ) (e : ℤ) :
    roundWithAccuracy Format.binary64 sign m e .exact =
      if h : rounded m e / 2 ^ surplus (rounded m e) (e + surplus m e) = 0 then .zero sign
      else .finite sign (rounded m e / 2 ^ surplus (rounded m e) (e + surplus m e))
        (e + surplus m e + surplus (rounded m e) (e + surplus m e)) (Nat.pos_of_ne_zero h) :=
  roundWithAccuracy_of_rounded sign rfl

theorem counts_roundWithAccuracy {m k : ℕ} (hm : 0 < m) (hlong : 2 ^ 52 ≤ m ∨ k = 0) :
    Counts (nearest (m * 2 ^ k))
      (roundWithAccuracy Format.binary64 .positive m (k - 1074) .exact) := by
  have hplaces := surplus_add hm hlong
  have hnearest : nearest (m * 2 ^ k) =
      rounded m (k - 1074) * 2 ^ (surplus m (k - 1074) + k) := by
    rw [nearest, ← hplaces, halfEven_mul_two_pow, rounded_eq]
  have hpos : 0 < nearest (m * 2 ^ k) := nearest_pos (Nat.mul_pos hm (Nat.two_pow_pos k))
  have hlong : 2 ^ 52 ≤ rounded m (k - 1074) ∨ surplus m (k - 1074) + k = 0 := by
    rcases Nat.eq_zero_or_pos (surplus m (k - 1074) + k) with hzero | hpos
    · exact .inr hzero
    · refine .inl ?_
      rw [rounded_eq, ← halfEven_mul_two_pow m _ k]
      refine le_halfEven ?_
      rw [← pow_add, hplaces]
      exact two_pow_excess_le (hplaces ▸ hpos)
  obtain ⟨hvalue, hshort, hlast⟩ := rounded_carry hlong
  rw [roundWithAccuracy_eq]
  split
  · rename_i hzero
    rw [hzero, zero_mul] at hvalue
    rw [hnearest, ← hvalue, zero_mul] at hpos
    exact absurd hpos (lt_irrefl 0)
  · refine counts_finite _ hshort hlast ?_ ?_
    · rw [hnearest, pow_add _ _ (surplus _ _), mul_comm (2 ^ (_ + k)), ← mul_assoc, hvalue]
    · push_cast
      ring

theorem counts_round {m k : ℕ} (hm : 0 < m) :
    Counts (nearest (m * 2 ^ k)) (UnpackedFloat.round Format.binary64 .positive m (k - 1074)) := by
  let zeros := min (52 - m.log2) k
  have htarget : Format.binary64.targetExponent (totalExponent m (k - 1074)) =
      max ((m.log2 : ℤ) + 1 + (k - 1074) - 53) (-1074) := rfl
  have hshift : ((k : ℤ) - 1074 -
      Format.binary64.targetExponent (totalExponent m (k - 1074))).toNat = zeros := by
    rw [htarget]
    omega
  have hexponent : (k : ℤ) - 1074 - zeros = (k - zeros : ℕ) - 1074 := by omega
  have hvalue : m * 2 ^ k = m * 2 ^ zeros * 2 ^ (k - zeros) := by
    rw [mul_assoc, ← pow_add, Nat.add_sub_cancel' (min_le_right _ _)]
  have hlong : 2 ^ 52 ≤ m * 2 ^ zeros ∨ k - zeros = 0 := by
    rcases Nat.lt_or_ge k (52 - m.log2) with hlt | hge
    · exact .inr (by omega)
    · have hlow : 2 ^ m.log2 * 2 ^ zeros ≤ m * 2 ^ zeros :=
        Nat.mul_le_mul_right _ (Nat.log2_self_le hm.ne')
      refine .inl (le_trans ?_ hlow)
      rw [← pow_add]
      exact Nat.pow_le_pow_right (by decide) (by omega)
  rw [UnpackedFloat.round, decreaseExponent, hshift, Nat.shiftLeft_eq, hexponent, hvalue]
  exact counts_roundWithAccuracy (Nat.mul_pos hm (Nat.two_pow_pos _)) hlong

/-! ## Sums in the model -/

theorem Counts.mantissa_long {n m : ℕ} {e : ℤ} {hm : 0 < m}
    (h : Counts n (.finite .positive m e hm)) : 2 ^ 52 ≤ m ∨ excess n = 0 := by
  obtain ⟨-, rfl, -⟩ := h
  rcases Nat.eq_zero_or_pos (excess n) with hzero | hpos
  · exact .inr hzero
  · refine .inl ?_
    rw [Nat.le_div_iff_mul_le (Nat.two_pow_pos _), ← pow_add]
    exact two_pow_excess_le hpos

theorem Counts.eq_mul {n m : ℕ} {e : ℤ} {hm : 0 < m}
    (h : Counts n (.finite .positive m e hm)) : n = m * 2 ^ excess n := by
  obtain ⟨hshort, rfl, -⟩ := h
  exact (Nat.div_mul_cancel hshort).symm

/-- Both mantissas are brought to the smaller exponent, where the sum is exact, and rounded. -/
theorem counts_add {a b : ℕ} {u v : UnpackedFloat} (hu : Counts a u) (hv : Counts b v)
    (hb : 0 < b) : Counts (nearest (a + b)) (UnpackedFloat.add Format.binary64 u v) := by
  obtain ⟨m₂, e₂, hm₂, rfl⟩ := hv.finite_of_pos hb
  rcases hu.zero_or_finite with ⟨rfl, s, rfl⟩ | ⟨m₁, e₁, hm₁, rfl⟩
  · rw [zero_add, nearest_of_short hv.1]
    exact hv
  · let k := min (excess a) (excess b)
    let m := m₁ * 2 ^ (excess a - k) + m₂ * 2 ^ (excess b - k)
    have hm : 0 < m := Nat.add_pos_left (Nat.mul_pos hm₁ (Nat.two_pow_pos _)) _
    have hsum : a + b = m * 2 ^ k := by
      rw [add_mul, mul_assoc, mul_assoc, ← pow_add, ← pow_add,
        Nat.sub_add_cancel (min_le_left _ _), Nat.sub_add_cancel (min_le_right _ _), ← hu.eq_mul,
        ← hv.eq_mul]
    have hround : UnpackedFloat.add Format.binary64 (.finite .positive m₁ e₁ hm₁)
        (.finite .positive m₂ e₂ hm₂) =
        UnpackedFloat.round Format.binary64 .positive m (k - 1074) := by
      obtain ⟨-, -, rfl⟩ := hu
      obtain ⟨-, -, rfl⟩ := hv
      have hmin : min ((excess a : ℤ) - 1074) (excess b - 1074) = k - 1074 := by omega
      have hleft : ((excess a : ℤ) - 1074 - (k - 1074)).toNat = excess a - k := by omega
      have hright : ((excess b : ℤ) - 1074 - (k - 1074)).toNat = excess b - k := by omega
      have hcompare : compare (m : ℤ) 0 = .gt := Int.compare_eq_gt.mpr (by omega)
      change UnpackedFloat.normalize _ ((m₁ <<< Int.toNat (_ - min _ _) : ℕ) +
        (m₂ <<< Int.toNat (_ - min _ _) : ℕ) : ℤ) (min _ _) _ = _
      rw [hmin, hleft, hright, Nat.shiftLeft_eq, Nat.shiftLeft_eq, ← Nat.cast_add,
        UnpackedFloat.normalize, hcompare]
      rfl
    rw [hround, hsum]
    exact counts_round hm

/-! ## The double of a count -/

theorem toNat_implicit_append (f : BitVec 52) : (1#1 ++ f).toNat = 2 ^ 52 + f.toNat := by
  rw [BitVec.toNat_append, ← Nat.shiftLeft_add_eq_or_of_lt f.isLt]
  rfl

theorem unpack_packComponents_succ (s : Sign) {k : ℕ} (hk : k ≤ 2045) (f : BitVec 52) :
    UnpackedFloat.unpack Format.binary64
      (packComponents Format.binary64 s (BitVec.ofNat 11 (k + 1)) f) =
      .finite s (2 ^ 52 + f.toNat) (k - 1074) (Nat.add_pos_left (by decide) _) := by
  have hbias : (Format.binary64.exponentBias : ℤ) = 1023 := rfl
  have hfield : (BitVec.ofNat 11 (k + 1)).toNat = k + 1 := by
    rw [BitVec.toNat_ofNat, Nat.mod_eq_of_lt (by omega)]
  have hlast : BitVec.ofNat 11 (k + 1) ≠ -1#11 := by
    intro h
    have hnat : k + 1 = 2047 := hfield ▸ congrArg BitVec.toNat h
    omega
  have hfirst : BitVec.ofNat 11 (k + 1) ≠ 0#11 := by
    intro h
    have hnat : k + 1 = 0 := hfield ▸ congrArg BitVec.toNat h
    omega
  rw [UnpackedFloat.unpack]
  simp only [unpackMantissa_packComponents, unpackExponent_packComponents,
    unpackSign_packComponents, Sign.ofBitVec_toBitVec, if_neg hlast, if_neg hfirst, hfield, hbias,
    toNat_implicit_append, UnpackedFloat.finite.injEq, true_and]
  push_cast
  ring

theorem unpack_packComponents_zero (s : Sign) {f : BitVec 52} (hf : 0 < f.toNat) :
    UnpackedFloat.unpack Format.binary64
      (packComponents Format.binary64 s 0#11 f) = .finite s f.toNat (-1074) hf := by
  have hne : f ≠ 0#52 := by
    rintro rfl
    exact absurd hf (by decide)
  have hlast : (0#11 : BitVec 11) ≠ -1#11 := by decide
  rw [UnpackedFloat.unpack]
  simp only [unpackMantissa_packComponents, unpackExponent_packComponents,
    unpackSign_packComponents, Sign.ofBitVec_toBitVec, if_neg hlast, if_true, dif_neg hne]
  rfl

theorem unpack_pack_of_lt (s : Sign) {n m : ℕ} {e : ℤ} {hm : 0 < m}
    (h : Counts n (.finite .positive m e hm)) (hn : n < beyond) :
    UnpackedFloat.unpack Format.binary64 (UnpackedFloat.pack Format.binary64
      (.finite s m e hm)) = .finite s m e hm := by
  have hexcess := lt_beyond_iff.mp hn
  have hlong := h.mantissa_long
  have hshort : m < 2 ^ 53 := by
    obtain ⟨-, rfl, -⟩ := h
    rw [Nat.div_lt_iff_lt_mul (Nat.two_pow_pos _), ← pow_add]
    exact lt_two_pow_excess n
  obtain ⟨-, -, rfl⟩ := h
  have hbias : (Format.binary64.exponentBias : Int) = 1023 := rfl
  have hbits : Format.binary64.mantissaBits = 53 := rfl
  have hfield : ((excess n : ℤ) - 1074 + 1023 + (52 : ℕ)).toNat = excess n + 1 := by omega
  rw [UnpackedFloat.pack]
  simp only [hbias, hbits, hfield]
  rw [if_neg (by norm_num; omega)]
  rcases Nat.lt_or_ge m (2 ^ 52) with hlow | hhigh
  · have hzero : excess n = 0 := hlong.resolve_left (Nat.not_le.mpr hlow)
    have hlog : m.log2 < 52 := (Nat.log2_lt hm.ne').mpr hlow
    have hf : (BitVec.ofNat 52 m).toNat = m := by
      rw [BitVec.toNat_ofNat, Nat.mod_eq_of_lt hlow]
    rw [if_neg (by omega),
      unpack_packComponents_zero s (hf.symm ▸ hm)]
    simp only [hf, hzero]
    rfl
  · have hlog : m.log2 = 52 := (Nat.log2_eq_iff hm.ne').mpr ⟨hhigh, hshort⟩
    have hf : 2 ^ 52 + (BitVec.ofNat 52 m).toNat = m := by
      rw [BitVec.toNat_ofNat]
      omega
    rw [if_pos (by omega), unpack_packComponents_succ s hexcess]
    simp only [hf]

theorem unpack_pack_of_le (s : Sign) {n m : ℕ} {e : ℤ} {hm : 0 < m}
    (h : Counts n (.finite .positive m e hm)) (hn : beyond ≤ n) :
    UnpackedFloat.unpack Format.binary64 (UnpackedFloat.pack Format.binary64
      (.finite s m e hm)) = .infinity s := by
  have hexcess := lt_beyond_iff.not.mp (Nat.not_lt.mpr hn)
  obtain ⟨-, -, rfl⟩ := h
  have hbias : (Format.binary64.exponentBias : Int) = 1023 := rfl
  rw [UnpackedFloat.pack]
  simp only [hbias]
  rw [if_pos (by norm_num; omega)]
  cases s <;> rfl

end Renovation.Decimal
