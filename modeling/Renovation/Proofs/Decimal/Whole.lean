import Mathlib
import Renovation.Datum.Conversion

set_option autoImplicit false

/-!
# Whole numbers as doubles

A whole number is read as the nearest double, and is refused if that is beyond the largest one. What
is not refused is a finite double: rounding carries into the exponent at most once, and at the
largest exponent it does not, because the numbers that would be rounded up there are refused.
-/

namespace Renovation.Decimal

open Float.Model Float.Model.UnpackedFloat

/-! ## The exponent of a double -/

abbrev exponentField (b : BitVec 64) : BitVec 11 := @unpackExponent Format.binary64 b

theorem toNat_exponentField (b : BitVec 64) :
    (exponentField b).toNat = b.toNat / 2 ^ 52 % 2 ^ 11 := by
  simp [exponentField, unpackExponent, Nat.shiftRight_eq_div_pow]

theorem isFinite_iff (x : Float) :
    Datum.isFinite x = true ↔ (exponentField x.toBits.toBitVec).toNat ≤ 2046 := by
  have hfield : x.toBits.toNat / twoTo 52 % twoTo 11 = (exponentField x.toBits.toBitVec).toNat :=
    (toNat_exponentField _).symm
  have hlt : (exponentField x.toBits.toBitVec).toNat < 2 ^ 11 := BitVec.isLt _
  rw [Datum.isFinite, expand, hfield]
  rcases Nat.lt_or_ge (exponentField x.toBits.toBitVec).toNat 2047 with hsmall | hlarge
  · rw [if_neg (by simpa using hsmall.ne)]
    refine iff_of_true ?_ (Nat.le_of_lt_succ hsmall)
    cases (exponentField x.toBits.toBitVec).toNat == 0 <;> rfl
  · rw [if_pos (by simp; omega)]
    refine iff_of_false ?_ (by omega)
    cases x.toBits.toNat % twoTo 52 == 0 <;> exact Bool.false_ne_true

/-- A number that a double can hold with an exponent field up to `k`. -/
def Within (k : Nat) : UnpackedFloat → Prop
  | .zero _ => True
  | .finite _ m e _ => m < 2 ^ 53 ∧ e + 1075 ≤ k
  | _ => False

theorem exponentField_pack {k : Nat} (hk : k ≤ 2046) {u : UnpackedFloat} (h : Within k u) :
    (exponentField (UnpackedFloat.pack Format.binary64 u)).toNat ≤ k := by
  cases u with
  | infinity | notANumber => exact h.elim
  | zero s => simp [UnpackedFloat.pack, packedZero]
  | finite s m e hm =>
    obtain ⟨-, he⟩ := h
    have hbias : (Format.binary64.exponentBias : Int) = 1023 := rfl
    rw [UnpackedFloat.pack]
    simp only [hbias]
    rw [if_neg (by norm_num; omega)]
    split
    · rw [exponentField, unpackExponent_packComponents, BitVec.toNat_ofNat]
      exact (Nat.mod_le _ _).trans (by norm_num; omega)
    · rw [exponentField, unpackExponent_packComponents]
      exact Nat.zero_le _

theorem within_unpack {k : Nat} (hpos : 1 ≤ k) (hk : k ≤ 2046) {b : BitVec 64}
    (h : (exponentField b).toNat ≤ k) : Within k (UnpackedFloat.unpack Format.binary64 b) := by
  have hbias : (Format.binary64.exponentBias : Int) = 1023 := rfl
  have hfraction : (@unpackMantissa Format.binary64 b).toNat < 2 ^ 52 := BitVec.isLt _
  have hne : exponentField b ≠ -1#11 := by
    intro heq
    rw [heq] at h
    exact absurd (h.trans hk) (by decide)
  rw [UnpackedFloat.unpack]
  simp only [hbias]
  rw [if_neg hne]
  split
  · rename_i hzero
    split
    · trivial
    · rw [hzero]
      exact ⟨hfraction.trans (by norm_num), by norm_num; omega⟩
  · exact ⟨BitVec.isLt (1#1 ++ @unpackMantissa Format.binary64 b), by norm_num; omega⟩

theorem within_neg {k : Nat} {u : UnpackedFloat} (h : Within k u) : Within k u.neg := by
  cases u with
  | infinity | notANumber => exact h.elim
  | zero | finite => exact h

/-! ## Rounding -/

theorem mantissa_shiftRight (em : ExtendedMantissa) (k : Nat) :
    (em >>> k).mantissa = em.mantissa / 2 ^ k := by
  induction k with
  | zero => exact (Nat.div_one _).symm
  | succ k ih =>
    change (em >>> k).mantissa / 2 = _
    rw [ih, Nat.div_div_eq_div_mul, Nat.pow_succ]

theorem roundedMantissa_le (em : ExtendedMantissa) :
    em.roundedMantissa ≤ em.mantissa + if em.roundBit then 1 else 0 := by
  obtain ⟨m, round, sticky⟩ := em
  cases round <;> cases sticky <;>
    simp [ExtendedMantissa.roundedMantissa, ExtendedMantissa.accuracy,
      Accuracy.roundToNearestEven]
  omega

theorem roundBit_shiftRight_succ (m k : Nat) :
    ((ExtendedMantissa.mk m false false) >>> (k + 1)).roundBit = (m / 2 ^ k % 2 != 0) :=
  congrArg (· % 2 != 0) (mantissa_shiftRight ⟨m, false, false⟩ k)

theorem roundedMantissa_shiftRight_succ (m k : Nat) :
    ((ExtendedMantissa.mk m false false) >>> (k + 1)).roundedMantissa ≤
      (m + twoTo k) / twoTo (k + 1) := by
  change _ ≤ (m + 2 ^ k) / 2 ^ (k + 1)
  have hle := roundedMantissa_le ((ExtendedMantissa.mk m false false) >>> (k + 1))
  rw [mantissa_shiftRight, roundBit_shiftRight_succ] at hle
  rw [Nat.pow_succ, ← Nat.div_div_eq_div_mul, Nat.add_div_right _ (Nat.two_pow_pos k)]
  rw [Nat.pow_succ, ← Nat.div_div_eq_div_mul] at hle
  generalize m / 2 ^ k = q at hle ⊢
  refine hle.trans ?_
  rcases Nat.mod_two_eq_zero_or_one q with heven | hodd
  · simp only [heven, bne_self_eq_false, Bool.false_eq_true, if_false]
    omega
  · simp only [hodd, bne_iff_ne, ne_eq, one_ne_zero, not_false_eq_true, if_true]
    omega

/-- The places that a mantissa is too long for a double, with its exponent. -/
def surplus (m : Nat) (e : Int) : Nat :=
  (Format.binary64.targetExponent (totalExponent m e) - e).toNat

theorem surplus_eq (m : Nat) (e : Int) :
    (surplus m e : Int) = max 0 (max ((m.log2 : Int) - 52) (-1074 - e)) := by
  have htarget : Format.binary64.targetExponent (totalExponent m e) =
      max ((m.log2 : Int) + 1 + e - 53) (-1074) := rfl
  rw [surplus, htarget]
  omega

theorem div_surplus_lt (m : Nat) (e : Int) : m / 2 ^ surplus m e < 2 ^ 53 := by
  have hlog : m.log2 + 1 ≤ 53 + surplus m e := by
    have := surplus_eq m e
    omega
  rw [Nat.div_lt_iff_lt_mul (Nat.two_pow_pos _), ← Nat.pow_add]
  exact Nat.lt_log2_self.trans_le (Nat.pow_le_pow_right (by decide) hlog)

def rounded (m : Nat) (e : Int) : Nat :=
  ((ExtendedMantissa.mk m false false) >>> surplus m e).roundedMantissa

theorem rounded_le (m : Nat) (e : Int) : rounded m e ≤ 2 ^ 53 := by
  have hle := roundedMantissa_le ((ExtendedMantissa.mk m false false) >>> surplus m e)
  have hlt : ((ExtendedMantissa.mk m false false) >>> surplus m e).mantissa < 2 ^ 53 := by
    rw [mantissa_shiftRight]
    exact div_surplus_lt m e
  refine hle.trans ?_
  split <;> omega

theorem surplus_of_le {r : Nat} {e : Int} (hr : r ≤ 2 ^ 53) (he : -1074 ≤ e) :
    (surplus r e : Int) = if r < 2 ^ 53 then 0 else 1 := by
  have hsurplus := surplus_eq r e
  rcases Nat.lt_or_ge r (2 ^ 53) with hlt | hge
  · have hlog : r.log2 ≤ 52 := by
      rcases Nat.eq_zero_or_pos r with hzero | hpos
      · rw [hzero]
        decide
      · exact Nat.lt_succ_iff.mp ((Nat.log2_lt hpos.ne').mpr hlt)
    rw [if_pos hlt]
    omega
  · rw [if_neg (Nat.not_lt.mpr hge)]
    obtain rfl := Nat.le_antisymm hr hge
    rw [Nat.log2_two_pow] at hsurplus
    omega

theorem surplus_rounded (m : Nat) (e : Int) :
    (surplus (rounded m e) (e + surplus m e) : Int) = if rounded m e < 2 ^ 53 then 0 else 1 := by
  have hfirst := surplus_eq m e
  exact surplus_of_le (rounded_le m e) (by omega)

/-- The exponent grows by the surplus, and by one more only where rounding carries. -/
theorem within_roundWithAccuracy {k m : Nat} {e : Int} (sign : Sign)
    (h : e + surplus m e + 1075 + (if rounded m e < 2 ^ 53 then 0 else 1) ≤ k) :
    Within k (roundWithAccuracy Format.binary64 sign m e .exact) := by
  have hcarry := surplus_rounded m e
  have hmantissa := div_surplus_lt (rounded m e) (e + surplus m e)
  rw [roundWithAccuracy]
  change Within k (if h : ((ExtendedMantissa.mk (rounded m e) false false) >>>
    surplus (rounded m e) (e + surplus m e)).mantissa = 0 then _ else _)
  split
  · trivial
  · refine ⟨?_, ?_⟩
    · rw [mantissa_shiftRight]
      exact hmantissa
    · change e + surplus m e + surplus (rounded m e) (e + surplus m e) + 1075 ≤ k
      omega

/-! ## Whole numbers -/

theorem isFinite_pack {k : Nat} (hk : k ≤ 2046) {u : UnpackedFloat} (h : Within k u) :
    Datum.isFinite (.ofModel (Float.Model.pack u)) = true :=
  (isFinite_iff _).mpr ((exponentField_pack hk h).trans hk)

theorem within_unpack_pack {k : Nat} (hpos : 1 ≤ k) (hk : k ≤ 2046) {u : UnpackedFloat}
    (h : Within k u) : Within k (Float.Model.pack u).unpack :=
  within_unpack hpos hk (exponentField_pack hk h)

theorem log2_lt_of_lt {m b : Nat} (hb : 0 < b) (h : m < twoTo b) : m.log2 < b := by
  rcases Nat.eq_zero_or_pos m with rfl | hpos
  · exact hb
  · exact (Nat.log2_lt hpos.ne').mpr h

theorem twoTo_add (a b : Nat) : twoTo (a + b) = twoTo a * twoTo b := Nat.pow_add 2 a b

theorem ofNat_eq_roundWithAccuracy {n : Nat} (hpos : 0 < n) (hlog : n.log2 < 53) :
    UnpackedFloat.ofNat Format.binary64 n = roundWithAccuracy Format.binary64 .positive
      (n <<< (52 - n.log2)) (-(52 - n.log2 : Nat)) .exact := by
  have hcompare : compare (n : Int) 0 = .gt := by
    rw [Int.compare_eq_gt]
    omega
  have htarget : Format.binary64.targetExponent (totalExponent n 0) =
      max ((n.log2 : Int) + 1 + 0 - 53) (-1074) := rfl
  have hshift : (0 - Format.binary64.targetExponent (totalExponent n 0)).toNat =
      52 - n.log2 := by
    rw [htarget]
    omega
  rw [UnpackedFloat.ofNat, UnpackedFloat.ofInt, UnpackedFloat.normalize, hcompare]
  change roundWithAccuracy _ _
    (n <<< (0 - Format.binary64.targetExponent (totalExponent n 0)).toNat)
    (0 - ((0 - Format.binary64.targetExponent (totalExponent n 0)).toNat : Int)) _ = _
  rw [hshift, Int.zero_sub]

theorem within_ofNat {n : Nat} (h : n < 2 ^ 53) :
    Within 1076 (UnpackedFloat.ofNat Format.binary64 n) := by
  rcases Nat.eq_zero_or_pos n with rfl | hpos
  · trivial
  have hlog : n.log2 < 53 := log2_lt_of_lt (by decide) h
  have hshifted : (n <<< (52 - n.log2)).log2 < 53 := by
    refine log2_lt_of_lt (by decide) ?_
    rw [Nat.shiftLeft_eq, show 53 = (n.log2 + 1) + (52 - n.log2) by omega, twoTo_add]
    exact Nat.mul_lt_mul_of_pos_right Nat.lt_log2_self (Nat.two_pow_pos _)
  have hsurplus := surplus_eq (n <<< (52 - n.log2)) (-(52 - n.log2 : Nat))
  rw [ofNat_eq_roundWithAccuracy hpos hlog]
  refine within_roundWithAccuracy _ ?_
  split <;> omega

theorem ofNat_eq_mul {n : Nat} (h : n < 2 ^ 53) :
    Float.ofNat n = .ofModel (Float.Model.pack (UnpackedFloat.mul Format.binary64
      (Float.Model.pack (UnpackedFloat.ofNat Format.binary64 n)).unpack
      (.finite .positive (2 ^ 52) (-52) (by decide)))) := by
  have hword : n.toUInt64.toNat = n := by
    rw [Nat.toUInt64_eq, UInt64.toNat_ofNat']
    exact Nat.mod_eq_of_lt (by omega)
  have hfloat : n.toUInt64.toFloat =
      .ofModel (Float.Model.pack (UnpackedFloat.ofNat Format.binary64 n)) :=
    congrArg (fun n => Float.ofModel (Float.Model.pack (UnpackedFloat.ofNat _ n))) hword
  unfold Float.ofNat OfScientific.ofScientific instOfScientificFloat Float.ofScientific
  simp only
  rw [dif_pos ⟨h, by decide⟩, if_neg Bool.false_ne_true, hfloat]
  change Float.ofModel (Float.Model.pack (UnpackedFloat.mul _ _
    (Float.exactlyRepresentablePowersOfTen[0]).toModel.unpack)) = _
  rw [show (Float.exactlyRepresentablePowersOfTen[0]).toModel.unpack =
    .finite .positive (2 ^ 52) (-52) (by decide) from rfl]

theorem isFinite_ofNat_small {n : Nat} (h : n < 2 ^ 53) :
    Datum.isFinite (Float.ofNat n) = true := by
  have hwhole := within_unpack_pack (by decide) (by decide) (within_ofNat h)
  rw [ofNat_eq_mul h]
  refine isFinite_pack (k := 1077) (by decide) ?_
  generalize (Float.Model.pack (UnpackedFloat.ofNat Format.binary64 n)).unpack = u at hwhole ⊢
  cases u with
  | infinity | notANumber => exact hwhole.elim
  | zero => trivial
  | finite s m e hm =>
    obtain ⟨hmantissa, hexponent⟩ := hwhole
    refine within_roundWithAccuracy _ ?_
    have hlog : (m * 2 ^ 52).log2 < 105 :=
      log2_lt_of_lt (by decide) (Nat.mul_lt_mul_of_pos_right hmantissa (by decide))
    have hsurplus := surplus_eq (m * 2 ^ 52) (e + -52)
    split <;> omega

theorem halfUp_lt {n : Nat} (h : n < twoTo 1024 - twoTo 970) :
    (n * 2 ^ 53 + twoTo 1023) / twoTo (1023 + 1) < 2 ^ 53 := by
  have hlast : twoTo 1024 = twoTo 970 * twoTo 54 := twoTo_add 970 54
  have hhalf : twoTo 1023 = twoTo 970 * twoTo 53 := twoTo_add 970 53
  rw [hlast] at h
  rw [Nat.div_lt_iff_lt_mul (twoTo_pos _), show 1023 + 1 = 1024 from rfl, hlast, hhalf]
  have hpos := twoTo_pos 970
  generalize twoTo 970 = step at h hpos ⊢
  have hwide : twoTo 54 = 2 ^ 54 := rfl
  have hnarrow : twoTo 53 = 2 ^ 53 := rfl
  rw [hwide] at h ⊢
  rw [hnarrow]
  omega

theorem ofNat_eq_scaled {n : Nat} (hlarge : 2 ^ 53 ≤ n) :
    Float.ofNat n = .ofModel (Float.Model.pack
      (roundWithAccuracy Format.binary64 .positive (n * 2 ^ 53) (-53) .exact)) := by
  have hscaled : UnpackedFloat.ofScientific Format.binary64 n (Int.ofNat 0) =
      roundWithAccuracy Format.binary64 .positive (n <<< 53 * 1) (-53) .exact := by
    rw [UnpackedFloat.ofScientific, dif_neg (by omega), if_neg (by decide),
      if_neg (by norm_num), if_pos (by decide)]
    rfl
  unfold Float.ofNat OfScientific.ofScientific instOfScientificFloat Float.ofScientific
  simp only
  rw [dif_neg (fun hc => absurd hc.1 (Nat.not_lt.mpr hlarge)), if_neg Bool.false_ne_true,
    Float.Model.ofScientific, hscaled, Nat.mul_one, Nat.shiftLeft_eq]

theorem isFinite_ofNat_large {n : Nat} (hlarge : 2 ^ 53 ≤ n) (h : n < twoTo 1024 - twoTo 970) :
    Datum.isFinite (Float.ofNat n) = true := by
  rw [ofNat_eq_scaled hlarge]
  refine isFinite_pack (k := 2046) (by decide) (within_roundWithAccuracy _ ?_)
  have hlog : (n * 2 ^ 53).log2 < 1024 + 53 := by
    refine log2_lt_of_lt (by decide) ?_
    rw [twoTo_add, show 2 ^ 53 = twoTo 53 from rfl]
    exact Nat.mul_lt_mul_of_pos_right (h.trans_le (Nat.sub_le _ _)) (twoTo_pos 53)
  have hsurplus := surplus_eq (n * 2 ^ 53) (-53)
  rcases Nat.lt_or_ge (n * 2 ^ 53).log2 1076 with hlt | hge
  · split <;> omega
  · have heq : surplus (n * 2 ^ 53) (-53) = 1023 + 1 := by omega
    have hcarry : rounded (n * 2 ^ 53) (-53) < 2 ^ 53 := by
      rw [rounded, heq]
      exact (roundedMantissa_shiftRight_succ _ _).trans_lt (halfUp_lt h)
    rw [if_pos hcarry]
    omega

theorem isFinite_ofNat {n : Nat} (h : n < twoTo 1024 - twoTo 970) :
    Datum.isFinite (Float.ofNat n) = true :=
  (Nat.lt_or_ge n (2 ^ 53)).elim isFinite_ofNat_small (isFinite_ofNat_large · h)

theorem isFinite_neg {x : Float} (h : Datum.isFinite x = true) : Datum.isFinite (-x) = true :=
  isFinite_pack (by decide)
    (within_neg (within_unpack (by decide) (by decide) ((isFinite_iff x).mp h)))

/-- The double of a whole number that is not refused is finite. -/
theorem isFinite_of_wholeToDouble {n : Int} {x : Float} (h : Datum.wholeToDouble n = .ok x) :
    Datum.isFinite x = true := by
  unfold Datum.wholeToDouble wholeToDouble? at h
  split at h
  · rename_i y hy
    cases h
    split at hy
    · cases hy
    · rename_i hbound
      cases hy
      cases n with
      | ofNat n => exact isFinite_ofNat (Nat.not_le.mp hbound)
      | negSucc n => exact isFinite_neg (isFinite_ofNat (Nat.not_le.mp hbound))
  · cases h

theorem finite?_eq_some_iff {x y : Float} :
    Datum.finite? x = some y ↔ x = y ∧ Datum.isFinite y = true := by
  unfold Datum.finite?
  split
  · rename_i hx
    rw [Option.some.injEq]
    exact ⟨fun h => ⟨h, h ▸ hx⟩, And.left⟩
  · rename_i hx
    exact iff_of_false nofun fun h => hx (h.1 ▸ h.2)

theorem isFinite_of_number {d : Datum} {x : Float} (h : d.number = .ok (some x)) :
    Datum.isFinite x = true := by
  cases d with
  | null | flag | list | record => cases h
  | whole n =>
    rw [Datum.number] at h
    cases hn : Datum.wholeToDouble n with
    | error fault =>
      rw [hn] at h
      cases h
    | ok y =>
      rw [hn] at h
      cases h
      exact isFinite_of_wholeToDouble hn
  | real y => exact (finite?_eq_some_iff.mp (Except.ok.inj h)).2
  | text s =>
    obtain ⟨y, -, hy⟩ := Option.bind_eq_some_iff.mp (Except.ok.inj h)
    exact (finite?_eq_some_iff.mp hy).2

end Renovation.Decimal
