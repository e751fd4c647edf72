import CodeReview.Proofs.Decimal.Shortest

/-!
Whole numbers on their way through a float. Up to 53 binary digits nothing is lost; a larger number
may be rounded, but never below the numbers that 32 bits can hold. So a number and the float nearest
to it are the same once they are cut to 32 bits.
-/

namespace CodeReview.Decimal

open Float.Model Float.Model.UnpackedFloat

/-! ### Rounding -/

/-- Zeros at the end of a mantissa are shifted out without a trace. -/
theorem shiftRight_mul_two_pow (m k : Nat) :
    (⟨m * 2 ^ k, false, false⟩ : ExtendedMantissa) >>> k = ⟨m, false, false⟩ := by
  change Nat.repeat ExtendedMantissa.shiftRightOne k ⟨m * 2 ^ k, false, false⟩ = _
  induction k generalizing m with
  | zero => rw [Nat.pow_zero, Nat.mul_one, Nat.repeat]
  | succ k ih =>
      rw [Nat.pow_succ', ← Nat.mul_assoc, Nat.repeat, ih, ExtendedMantissa.shiftRightOne]
      simp

/-- The first 53 binary digits of a number that has as many. -/
theorem lead_bounds {m : Nat} (h : 2 ^ 52 ≤ m) :
    2 ^ 52 ≤ m / 2 ^ (m.log2 - 52) ∧ m / 2 ^ (m.log2 - 52) < 2 ^ 53 := by
  have hm : m ≠ 0 := by omega
  have hlog : 52 ≤ m.log2 := (Nat.le_log2 hm).mpr h
  have hpow (i : Nat) : 2 ^ (52 + i) * 2 ^ (m.log2 - 52) = 2 ^ (m.log2 + i) := by
    rw [← Nat.pow_add]
    congr 1
    omega
  constructor
  · rw [Nat.le_div_iff_mul_le (Nat.two_pow_pos _)]
    exact Nat.le_trans (Nat.le_of_eq (hpow 0)) (Nat.log2_self_le hm)
  · rw [Nat.div_lt_iff_lt_mul (Nat.two_pow_pos _)]
    exact Nat.lt_of_lt_of_eq Nat.lt_log2_self (hpow 1).symm

section Shift

variable {s : Sign} {m : Nat} {e : Int} {acc : Accuracy}

/-- Above the least numbers, a mantissa of 53 binary digits or more is cut to the first 53. -/
theorem shiftToTargetExponent_eq (hm : 2 ^ 52 ≤ m) (hleast : -1022 ≤ m.log2 + e) :
    shiftToTargetExponent .binary64 m e acc =
      (ExtendedMantissa.ofMantissaAndAccuracy m acc >>> (m.log2 - 52),
        e + (m.log2 - 52 : Nat)) := by
  have hlog : 52 ≤ m.log2 := (Nat.le_log2 (by omega)).mpr hm
  have hamount : (Format.binary64.targetExponent (totalExponent m e) - e).toNat = m.log2 - 52 := by
    rw [targetExponent_eq]
    omega
  rw [shiftToTargetExponent, shiftToExponent, hamount]

/-- A number of 53 binary digits or more keeps its size when it is rounded. -/
theorem exists_roundWithAccuracy (hm : 2 ^ 52 ≤ m) (hleast : -1022 ≤ m.log2 + e)
    (hmost : m.log2 + e ≤ 1022) :
    ∃ m' e' hm', roundWithAccuracy .binary64 s m e acc = .finite s m' e' hm' ∧ Held m' e' ∧
      2 ^ 52 ≤ m' ∧ m.log2 + e - 52 ≤ e' := by
  have hlog : 52 ≤ m.log2 := (Nat.le_log2 (by omega)).mpr hm
  rw [roundWithAccuracy, shiftToTargetExponent_eq hm hleast]
  dsimp only
  -- The first shift leaves 53 digits, and rounding may carry to the next power of two.
  obtain ⟨em, hem⟩ : ∃ em, em = ExtendedMantissa.ofMantissaAndAccuracy m acc >>> (m.log2 - 52) :=
    ⟨_, rfl⟩
  have hmantissa : em.mantissa = m / 2 ^ (m.log2 - 52) := by
    rw [hem, shiftRight_mantissa, mantissa_ofMantissaAndAccuracy]
  obtain ⟨hlead, hfits⟩ := lead_bounds hm
  rw [← hmantissa] at hlead hfits
  have hlower : 2 ^ 52 ≤ em.roundedMantissa := Nat.le_trans hlead (le_roundedMantissa em)
  have hupper : em.roundedMantissa ≤ 2 ^ 53 := Nat.le_trans (roundedMantissa_le em) hfits
  rw [← hem]
  generalize em.roundedMantissa = r at hlower hupper ⊢
  have hlog₁ : 52 ≤ r.log2 := (Nat.le_log2 (by omega)).mpr hlower
  have hlog₂ : r.log2 ≤ 53 := log2_le_of_lt (Nat.lt_of_le_of_lt hupper (by decide))
  obtain ⟨hlead, hfits⟩ := lead_bounds hlower
  rw [shiftToTargetExponent_eq hlower (by omega)]
  dsimp only
  rw [shiftRight_mantissa, mantissa_ofMantissaAndAccuracy]
  refine ⟨r / 2 ^ (r.log2 - 52), e + (m.log2 - 52 : Nat) + (r.log2 - 52 : Nat), by omega,
    dif_neg (by omega), ⟨hfits, by omega, by omega, .inr hlead⟩, hlead, by omega⟩

/-- What a float can hold in full is not rounded, even with zeros at its end. -/
theorem roundWithAccuracy_mul_two_pow {k : Nat} (hm : 2 ^ 52 ≤ m) (h : Held m e) :
    roundWithAccuracy .binary64 s (m * 2 ^ k) (e - k) .exact = .finite s m e (by omega) := by
  have hlog : (m * 2 ^ k).log2 = 52 + k := by
    rw [log2_mul_two_pow (by omega), (Nat.log2_eq_iff (by omega)).mpr ⟨hm, h.fits⟩]
  have hleast := h.least
  have hround : ExtendedMantissa.roundedMantissa ⟨m, false, false⟩ = m := rfl
  have hshift : shiftToTargetExponent .binary64 (m * 2 ^ k) (e - k) .exact =
      (⟨m, false, false⟩, e) := by
    have hlarge : 2 ^ 52 ≤ m * 2 ^ k :=
      Nat.le_trans hm (Nat.le_mul_of_pos_right m (Nat.two_pow_pos k))
    rw [shiftToTargetExponent_eq hlarge (by omega), hlog, Nat.add_sub_cancel_left]
    simp only [ExtendedMantissa.ofMantissaAndAccuracy, shiftRight_mul_two_pow, Int.sub_add_cancel]
  rw [roundWithAccuracy, hshift]
  simp only [hround, shiftToTargetExponent_held h]
  rw [dif_neg (by omega)]

end Shift

/-! ### Whole numbers -/

/-- The finite floats from one on. -/
def FromOne (x : Float) : Prop :=
  x.isFinite = true ∧ 1.0 ≤ x

/-- The float is from one on, and cut to 32 bits it is the number, cut to 32 bits. -/
structure StandsFor (x : Float) (n : Nat) : Prop where
  fromOne : FromOne x
  cut : x.toUInt32.toNat = min n (2 ^ 32 - 1)

theorem standsFor_of_unpack {x : Float} {n : Nat} (hn : 0 < n) (h : n < 2 ^ 53)
    (hx : x.toModel.unpack = (Float.Model.ofNat n).unpack) : StandsFor x n := by
  have hlog : n.log2 ≤ 52 := log2_le_of_lt h
  rw [unpack_ofNat hn h] at hx
  have hnormal := (held_nat hn h).normal.resolve_left (by omega)
  have h0 : ((n.log2 : Int) - 52).toNat = 0 := by omega
  have h1 : (-((n.log2 : Int) - 52)).toNat = 52 - n.log2 := by omega
  refine ⟨one_le_iff.mpr ⟨_, _, _, hx, hnormal, by omega⟩, ?_⟩
  rw [toUInt32_toNat hx, h0, h1, Nat.pow_zero, Nat.mul_one,
    Nat.mul_div_cancel _ (Nat.two_pow_pos _)]

/-- What is too large for 32 bits stays so. -/
theorem standsFor_of_large {x : Float} {n m : Nat} {e : Int} {hm : 0 < m} (hn : 2 ^ 32 ≤ n)
    (hx : x.toModel.unpack = .finite .positive m e hm) (hlead : 2 ^ 52 ≤ m) (he : 0 ≤ e) :
    StandsFor x n := by
  have h1 : (-e).toNat = 0 := by omega
  have hwhole : 2 ^ 52 ≤ m * 2 ^ e.toNat :=
    Nat.le_trans hlead (Nat.le_mul_of_pos_right m (Nat.two_pow_pos _))
  refine ⟨one_le_iff.mpr ⟨m, e, hm, hx, hlead, by omega⟩, ?_⟩
  rw [toUInt32_toNat hx, h1, Nat.pow_zero, Nat.div_one]
  omega

theorem standsFor_round {n m : Nat} {e : Int} (hn : 2 ^ 53 ≤ n) (hn' : n < 2 ^ 64)
    (hm : 2 ^ 52 ≤ m) (hlog : m.log2 + e = n.log2) :
    StandsFor (.ofModel (.pack (roundWithAccuracy .binary64 .positive m e .exact))) n := by
  have hlow : 53 ≤ n.log2 := (Nat.le_log2 (by omega)).mpr hn
  have hhigh : n.log2 ≤ 63 := log2_le_of_lt hn'
  obtain ⟨m', e', hm', hround, hheld, hlead, he⟩ :=
    @exists_roundWithAccuracy .positive m e .exact hm (by omega) (by omega)
  rw [hround]
  exact standsFor_of_large (by omega) (unpack_pack hheld) hlead (by omega)

theorem toFloat_eq {n : Nat} (h : n < 2 ^ 64) :
    n.toUInt64.toFloat = .ofModel (Float.Model.ofNat n) := by
  have hword : n.toUInt64.toNat = n := Nat.mod_eq_of_lt h
  change Float.ofModel (Float.Model.ofNat n.toUInt64.toNat) = _
  rw [hword]

theorem floatOfInt_natCast (n : Nat) : floatOfInt (n : Int) = n.toUInt64.toFloat := by
  rw [floatOfInt, if_neg (by omega)]
  rfl

/-- Words are converted without a loss that 32 bits could show. -/
theorem standsFor_toFloat {n : Nat} (hn : 0 < n) (h : n < 2 ^ 64) :
    StandsFor n.toUInt64.toFloat n := by
  rw [toFloat_eq h]
  by_cases hsmall : n < 2 ^ 53
  · exact standsFor_of_unpack hn hsmall rfl
  · have hlog : 53 ≤ n.log2 := (Nat.le_log2 (by omega)).mpr (by omega)
    rw [Float.Model.ofNat, ofNat_eq_round hn, show 52 - n.log2 = 0 by omega, Nat.pow_zero,
      Nat.mul_one]
    exact standsFor_round (by omega) h (by omega) (by omega)

/-- A number of digits below `2 ^ 64` is nowhere near the largest floats. -/
theorem nearest_eq {n : Nat} (hn : 0 < n) (h : n < 2 ^ 64) :
    nearest n 0 = Float.ofScientific n false 0 := by
  have hlength : (Nat.toDigits 10 n).length ≤ 20 + 1 :=
    length_digitsOf_le (Nat.le_trans (Nat.le_of_lt h) (by decide))
  rw [nearest, if_neg (by omega), if_neg (by omega)]
  rfl

theorem unpack_powerOfTen_zero : (Float.exactlyRepresentablePowersOfTen[0]).toModel.unpack =
    .finite .positive (2 ^ 52) (-52) (by decide) := by rfl

/-- What is kept with a one in front is not changed by a multiplication by one. -/
theorem mul_one_eq {x y : Float} {m : Nat} {e : Int} {hm : 0 < m}
    (hx : x.toModel.unpack = .finite .positive m e hm) (hlead : 2 ^ 52 ≤ m)
    (hy : y.toModel.unpack = .finite .positive (2 ^ 52) (-52) (by decide)) :
    x * y = .ofModel (.pack (.finite .positive m e hm)) := by
  change Float.ofModel (.pack (UnpackedFloat.mul .binary64 x.toModel.unpack y.toModel.unpack)) = _
  rw [hx, hy]
  change Float.ofModel (.pack
    (roundWithAccuracy .binary64 .positive (m * 2 ^ 52) (e - (52 : Nat)) .exact)) = _
  rw [roundWithAccuracy_mul_two_pow hlead (held_of_unpack hx)]

theorem unpack_mul_one {x y : Float} {m : Nat} {e : Int} {hm : 0 < m}
    (hx : x.toModel.unpack = .finite .positive m e hm) (hlead : 2 ^ 52 ≤ m)
    (hy : y.toModel.unpack = .finite .positive (2 ^ 52) (-52) (by decide)) :
    (x * y).toModel.unpack = x.toModel.unpack := by
  rw [mul_one_eq hx hlead hy, hx]
  exact unpack_pack (held_of_unpack hx)

/-- Texts of digits are read without a loss that 32 bits could show. -/
theorem standsFor_nearest {n : Nat} (hn : 0 < n) (h : n < 2 ^ 64) : StandsFor (nearest n 0) n := by
  rw [nearest_eq hn h]
  unfold Float.ofScientific
  -- Up to 53 binary digits the number is converted and multiplied by one.
  split
  · rename_i hsmall
    have hlog : n.log2 ≤ 52 := log2_le_of_lt hsmall.1
    have hunpack := unpack_ofNat hn hsmall.1
    have hlead := (held_nat hn hsmall.1).normal.resolve_left (by omega)
    rw [toFloat_eq h]
    exact standsFor_of_unpack hn hsmall.1 (unpack_mul_one hunpack hlead unpack_powerOfTen_zero)
  · change StandsFor (.ofModel (.pack (UnpackedFloat.ofScientific .binary64 n 0))) n
    rw [ofScientific_eq_round hn]
    refine standsFor_round (by omega) h (by omega) ?_
    rw [log2_mul_two_pow hn]
    omega

/-! ### Signs -/

/-- The float is no finite number below zero. -/
def NotNegative (x : Float) : Prop :=
  ∀ m e hm, x.toModel.unpack ≠ .finite .negative m e hm

theorem sign_of_unpack_packComponents {s s' : Sign} {E : BitVec 11} {M : BitVec 52} {m : Nat}
    {e : Int} {hm : 0 < m}
    (h : UnpackedFloat.unpack .binary64 (packComponents .binary64 s E M) = .finite s' m e hm) :
    s' = s := by
  unfold UnpackedFloat.unpack at h
  simp only [unpackExponent_packComponents, unpackMantissa_packComponents,
    unpackSign_packComponents, ofBitVec_toBitVec] at h
  split at h
  · split at h <;> cases h
  · split at h
    · split at h <;> cases h
      rfl
    · cases h
      rfl

/-- Packing keeps the sign, also of a number that is too large for a float. -/
theorem sign_of_unpack_pack {s s' : Sign} {m m' : Nat} {e e' : Int} {hm : 0 < m} {hm' : 0 < m'}
    (h : (Float.Model.pack (.finite s m e hm)).unpack = .finite s' m' e' hm') : s' = s := by
  change UnpackedFloat.unpack .binary64 (UnpackedFloat.pack .binary64 _) = _ at h
  unfold UnpackedFloat.pack at h
  dsimp only at h
  split at h
  · exact sign_of_unpack_packComponents h
  · split at h <;> exact sign_of_unpack_packComponents h

theorem notNegative_round (m : Nat) (e : Int) (acc : Accuracy) :
    NotNegative (.ofModel (.pack (roundWithAccuracy .binary64 .positive m e acc))) := by
  intro m' e' hm' h
  change (Float.Model.pack (roundWithAccuracy .binary64 .positive m e acc)).unpack = _ at h
  rw [roundWithAccuracy] at h
  dsimp only at h
  split at h
  · cases h
  · cases sign_of_unpack_pack h

theorem notNegative_toFloat (n : UInt64) : NotNegative n.toFloat := by
  change NotNegative (.ofModel (.pack (UnpackedFloat.ofNat .binary64 n.toNat)))
  obtain hn | hn := Nat.eq_zero_or_pos n.toNat
  · rw [hn]
    intro m e hm h
    cases h
  · rw [ofNat_eq_round hn]
    exact notNegative_round _ _ _

theorem FromOne.notNegative {x : Float} (h : FromOne x) : NotNegative x := by
  obtain ⟨m, e, hm, hunpack, -, -⟩ := one_le_iff.mp h
  intro m' e' hm' hnegative
  rw [hunpack] at hnegative
  cases hnegative

theorem notNegative_nearest (n : Nat) : NotNegative (nearest n 0) := by
  obtain rfl | hn := Nat.eq_zero_or_pos n
  · intro m e hm h
    cases h
  · by_cases hword : n < 2 ^ 64
    · exact (standsFor_nearest hn hword).fromOne.notNegative
    · -- The number may be rounded, and it may be beyond the largest float.
      rw [nearest, if_neg (by omega)]
      split
      · intro m e hm h
        cases h
      · change NotNegative (Float.ofScientific n false 0)
        rw [Float.ofScientific, dif_neg (by omega)]
        change NotNegative (.ofModel (.pack (UnpackedFloat.ofScientific .binary64 n 0)))
        rw [ofScientific_eq_round hn]
        exact notNegative_round _ _ _

theorem not_fromOne_of_le_zero {x : Float} (h : x ≤ 0.0) : ¬ FromOne x := by
  intro hx
  obtain ⟨m, e, hm, hunpack, -, -⟩ := one_le_iff.mp hx
  have hzero : (0.0 : Float).toModel.unpack = .zero .positive := by rfl
  rw [le_iff_unpack, hunpack, hzero] at h
  cases h

theorem NotNegative.not_fromOne_neg {x : Float} (h : NotNegative x) : ¬ FromOne (-x) := by
  intro hx
  obtain ⟨m, e, hm, hunpack, -, -⟩ := one_le_iff.mp hx
  change (Float.Model.pack x.toModel.unpack.neg).unpack = _ at hunpack
  cases hx : x.toModel.unpack with
  | notANumber =>
      rw [hx] at hunpack
      cases hunpack
  | infinity s =>
      rw [hx] at hunpack
      cases s <;> cases hunpack
  | zero s =>
      rw [hx] at hunpack
      cases s <;> cases hunpack
  | finite s m' e' hm' =>
      rw [hx] at hunpack
      have hsign := sign_of_unpack_pack hunpack
      cases s with
      | negative => exact h m' e' hm' hx
      | positive => cases hsign

theorem not_fromOne_floatOfInt {i : Int} (h : i ≤ 0) : ¬ FromOne (floatOfInt i) := by
  rw [floatOfInt]
  split
  · exact (notNegative_toFloat _).not_fromOne_neg
  · obtain rfl : i = 0 := by omega
    exact not_fromOne_of_le_zero (by decide +kernel)

end CodeReview.Decimal
