import CodeReview.Decimal.Numeral
import Mathlib

/-!
Floats by the way they are kept: a sign, a mantissa and an exponent. Whole numbers of up to 53
digits are floats, and the whole part of a float can be told from its mantissa and its exponent.
-/

namespace CodeReview.Decimal

open Float.Model Float.Model.UnpackedFloat

/-! ### Packed and unpacked -/

/-- A mantissa and an exponent as floats keep them: with all the digits that there may be, unless
the exponent is the least one. -/
structure Held (m : Nat) (e : Int) : Prop where
  fits : m < 2 ^ 53
  least : -1074 ≤ e
  most : e ≤ 971
  normal : e = -1074 ∨ 2 ^ 52 ≤ m

theorem toNat_withLeadingOne (M : BitVec 52) : (1#1 ++ M).toNat = 2 ^ 52 + M.toNat := by
  rw [BitVec.toNat_append, Nat.shiftLeft_eq, BitVec.toNat_ofNat, Nat.mod_eq_of_lt (by decide)]
  exact (Nat.two_pow_add_eq_or_of_lt M.isLt 1).symm

/-- The finite floats that there are. -/
theorem held_of_unpack {x : Float.Model} {s m e hm} (h : x.unpack = .finite s m e hm) :
    Held m e := by
  have hM : (@unpackMantissa .binary64 x.toBits.toBitVec).toNat < 2 ^ 52 := BitVec.isLt _
  have hE : (@unpackExponent .binary64 x.toBits.toBitVec).toNat < 2 ^ 11 := BitVec.isLt _
  rw [Float.Model.unpack, UnpackedFloat.unpack] at h
  simp only at h
  -- The largest exponent stands for what is no finite float.
  split at h
  · split at h <;> cases h
  · rename_i hfinite
    have hE' : (@unpackExponent .binary64 x.toBits.toBitVec).toNat ≠ 2047 :=
      fun h => hfinite (BitVec.eq_of_toNat_eq h)
    -- Under the least exponent there is no digit besides the 52 that are kept.
    split at h
    · split at h
      · cases h
      · rename_i hsub _
        rw [hsub] at h
        injection h with _ hmant hexpo
        change -1075 + 1 = e at hexpo
        constructor <;> omega
    · rename_i hnormal
      have hE0 : (@unpackExponent .binary64 x.toBits.toBitVec).toNat ≠ 0 :=
        fun h => hnormal (BitVec.eq_of_toNat_eq h)
      injection h with _ hmant hexpo
      rw [toNat_withLeadingOne] at hmant
      change _ - 1075 = e at hexpo
      constructor <;> omega

@[simp] theorem unpackSign_packComponents {s : Sign} {E : BitVec 11} {M : BitVec 52} :
    @unpackSign .binary64 (packComponents .binary64 s E M) = s.toBitVec := by
  apply BitVec.eq_of_getLsbD_eq
  intro i hi
  obtain rfl : i = 0 := by omega
  change ((s.toBitVec ++ E ++ M).extractLsb' 63 1).getLsbD 0 = _
  rw [BitVec.getLsbD_extractLsb', BitVec.getLsbD_append, BitVec.getLsbD_append]
  rfl

@[simp] theorem ofBitVec_toBitVec (s : Sign) : Sign.ofBitVec s.toBitVec = s := by
  cases s <;> rfl

theorem unpack_packComponents_normal (s : Sign) {E M : Nat} (h0 : E ≠ 0) (hE : E < 2047)
    (hM : 2 ^ 52 ≤ M) (hM' : M < 2 ^ 53) :
    UnpackedFloat.unpack .binary64
        (packComponents .binary64 s (BitVec.ofNat 11 E) (BitVec.ofNat 52 M)) =
      .finite s M (E - 1075) (by omega) := by
  have hexp : (BitVec.ofNat 11 E).toNat = E := Nat.mod_eq_of_lt (by omega)
  have hfinite : BitVec.ofNat 11 E ≠ -1#11 := by
    intro h
    rw [h] at hexp
    change 2047 = E at hexp
    omega
  have hnormal : BitVec.ofNat 11 E ≠ 0#11 := by
    intro h
    rw [h] at hexp
    exact h0 hexp.symm
  have hmant : (1#1 ++ BitVec.ofNat 52 M).toNat = M := by
    rw [toNat_withLeadingOne, BitVec.toNat_ofNat]
    omega
  unfold UnpackedFloat.unpack
  simp only [unpackExponent_packComponents, unpackMantissa_packComponents,
    unpackSign_packComponents, ofBitVec_toBitVec]
  rw [if_neg hfinite, if_neg hnormal]
  simp only [hexp, hmant]
  rfl

theorem unpack_packComponents_subnormal (s : Sign) {M : Nat} (h0 : 0 < M) (hM : M < 2 ^ 52) :
    UnpackedFloat.unpack .binary64 (packComponents .binary64 s 0#11 (BitVec.ofNat 52 M)) =
      .finite s M (-1074) h0 := by
  have hmant : (BitVec.ofNat 52 M).toNat = M := Nat.mod_eq_of_lt hM
  have hshown : BitVec.ofNat 52 M ≠ 0#52 := by
    intro h
    rw [h] at hmant
    change 0 = M at hmant
    omega
  unfold UnpackedFloat.unpack
  simp only [unpackExponent_packComponents, unpackMantissa_packComponents,
    unpackSign_packComponents, ofBitVec_toBitVec]
  rw [if_neg (by decide), if_pos trivial, dif_neg hshown]
  simp only [hmant]
  rfl

theorem unpack_pack {s m e hm} (h : Held m e) :
    (Float.Model.pack (.finite s m e hm)).unpack = .finite s m e hm := by
  have hlog : m.log2 = 52 ↔ 2 ^ 52 ≤ m := by
    rw [Nat.log2_eq_iff (Nat.ne_of_gt hm)]
    exact ⟨And.left, fun hn => ⟨hn, h.fits⟩⟩
  obtain ⟨hfits, hleast, hmost, hnormal⟩ := h
  change UnpackedFloat.unpack .binary64 (UnpackedFloat.pack .binary64 _) = _
  unfold UnpackedFloat.pack
  dsimp only
  have hbias : (e + Format.binary64.exponentBias + (52 : Nat)).toNat = (e + 1075).toNat := by
    change (e + 1023 + 52).toNat = _
    omega
  have hbits : Format.binary64.mantissaBits = 53 := rfl
  rw [hbias, hbits, if_neg (by omega)]
  -- A mantissa of all 53 digits is kept without the first of them, which is always a one.
  split
  · rename_i hn
    have : ((e + 1075).toNat : Int) - 1075 = e := by omega
    rw [unpack_packComponents_normal s (by omega) (by omega) (hlog.mp (by omega)) hfits]
    simp only [this]
  · rename_i hn
    have : ¬ 2 ^ 52 ≤ m := by omega
    obtain rfl : e = -1074 := by omega
    exact unpack_packComponents_subnormal s hm (by omega)

/-! ### Rounding -/

theorem targetExponent_eq (m : Nat) (e : Int) :
    Format.binary64.targetExponent (totalExponent m e) = max (m.log2 + e - 52) (-1074) := by
  change max ((m.log2 : Int) + 1 + e - 53) (-1074) = _
  omega

/-- What is held in full is not moved. -/
theorem shiftToTargetExponent_held {m : Nat} {e : Int} (h : Held m e) :
    shiftToTargetExponent .binary64 m e .exact = (⟨m, false, false⟩, e) := by
  have hlog : m.log2 ≤ 52 := by
    by_cases hm : m = 0
    · simp [hm]
    · exact Nat.le_of_lt_succ ((Nat.log2_lt hm).mpr h.fits)
  have hleast := h.least
  have hstay : (Format.binary64.targetExponent (totalExponent m e) - e).toNat = 0 := by
    rw [targetExponent_eq]
    omega
  rw [shiftToTargetExponent, shiftToExponent, hstay]
  simp only [Int.ofNat_zero, Int.add_zero]
  rfl

/-- What is held in full is not rounded. -/
theorem roundWithAccuracy_held {s m e} (hm : 0 < m) (h : Held m e) :
    roundWithAccuracy .binary64 s m e .exact = .finite s m e hm := by
  have hround : ExtendedMantissa.roundedMantissa ⟨m, false, false⟩ = m := rfl
  rw [roundWithAccuracy, shiftToTargetExponent_held h]
  simp only [hround, shiftToTargetExponent_held h]
  rw [dif_neg (Nat.ne_of_gt hm)]

theorem log2_le_of_lt {n k : Nat} (h : n < 2 ^ (k + 1)) : n.log2 ≤ k := by
  by_cases hn : n = 0
  · simp [hn]
  · exact Nat.le_of_lt_succ ((Nat.log2_lt hn).mpr h)

/-- Whole numbers up to 53 digits are floats. -/
theorem held_nat {n : Nat} (hn : 0 < n) (h : n < 2 ^ 53) :
    Held (n * 2 ^ (52 - n.log2)) (n.log2 - 52) := by
  have hlog := log2_le_of_lt h
  have hle : 2 ^ n.log2 ≤ n := Nat.log2_self_le (Nat.ne_of_gt hn)
  have hlt : n < 2 ^ (n.log2 + 1) := Nat.lt_log2_self
  have hpow : 2 ^ n.log2 * 2 ^ (52 - n.log2) = 2 ^ 52 := by
    rw [← Nat.pow_add]
    congr 1
    omega
  have hlower := Nat.mul_le_mul_right (2 ^ (52 - n.log2)) hle
  have hupper := Nat.mul_lt_mul_of_pos_right hlt (Nat.two_pow_pos (52 - n.log2))
  rw [hpow] at hlower
  rw [Nat.pow_succ, Nat.mul_right_comm, hpow] at hupper
  constructor <;> omega

theorem ofNat_eq_round {n : Nat} (hn : 0 < n) :
    UnpackedFloat.ofNat .binary64 n =
      roundWithAccuracy .binary64 .positive (n * 2 ^ (52 - n.log2)) (0 - (52 - n.log2 : Nat))
        .exact := by
  have hpos : compare (n : Int) 0 = .gt := by
    rw [Int.compare_eq_gt]
    omega
  have hshift : (0 - Format.binary64.targetExponent (totalExponent n 0)).toNat = 52 - n.log2 := by
    rw [targetExponent_eq]
    omega
  rw [UnpackedFloat.ofNat, UnpackedFloat.ofInt, UnpackedFloat.normalize, hpos]
  simp only [Int.toNat_natCast, UnpackedFloat.round, decreaseExponent, hshift, Nat.shiftLeft_eq]

theorem unpack_ofNat {n : Nat} (hn : 0 < n) (h : n < 2 ^ 53) :
    (Float.Model.ofNat n).unpack =
      .finite .positive (n * 2 ^ (52 - n.log2)) (n.log2 - 52)
        (Nat.mul_pos hn (Nat.two_pow_pos _)) := by
  have hlog := log2_le_of_lt h
  have hexpo : (0 : Int) - (52 - n.log2 : Nat) = n.log2 - 52 := by omega
  rw [Float.Model.ofNat, ofNat_eq_round hn, hexpo, roundWithAccuracy_held _ (held_nat hn h),
    unpack_pack (held_nat hn h)]

/-! ### Whole parts -/

@[simp] theorem shiftRight_mantissa (em : ExtendedMantissa) (k : Nat) :
    (em >>> k).mantissa = em.mantissa / 2 ^ k := by
  change (Nat.repeat ExtendedMantissa.shiftRightOne k em).mantissa = _
  induction k with
  | zero => exact (Nat.div_one _).symm
  | succ k ih =>
      rw [Nat.repeat, ExtendedMantissa.shiftRightOne, ih, Nat.div_div_eq_div_mul, Nat.pow_succ]

/-- The whole part of a finite float. -/
theorem roundToInt_eq (s : Sign) (m : Nat) (e : Int) :
    roundToInt s m e = s.apply ((m * 2 ^ e.toNat / 2 ^ (-e).toNat : Nat) : Int) := by
  have hshift : (0 - (e - (e.toNat : Int))).toNat = (-e).toNat := by omega
  simp only [roundToInt, decreaseExponent, shiftToExponent, shiftRight_mantissa,
    Nat.shiftLeft_eq, Int.sub_zero, hshift]
  rfl

theorem toNat_ofNatClamp (n : Nat) : (UInt32.ofNatClamp n).toNat = min n (2 ^ 32 - 1) := by
  have hsize : UInt32.size = 2 ^ 32 := rfl
  rw [UInt32.ofNatClamp]
  split
  · rw [UInt32.toNat_ofNatLT]
    omega
  · rw [UInt32.toNat_ofNatLT]
    omega

theorem toUInt32_toNat {x : Float} {m e hm} (h : x.toModel.unpack = .finite .positive m e hm) :
    x.toUInt32.toNat = min (m * 2 ^ e.toNat / 2 ^ (-e).toNat) (2 ^ 32 - 1) := by
  rw [Float.toUInt32, Float.Model.toUInt32, h, UnpackedFloat.toUInt32, toNat_ofNatClamp]
  simp only [toInt, roundToInt_eq]
  rfl

/-! ### Numbers from one on -/

theorem unpack_one :
    (1.0 : Float).toModel.unpack = .finite .positive (2 ^ 52) (-52) (by decide) := by
  rfl

theorem le_positive_iff {m₁ e₁ h₁ m₂ e₂ h₂} :
    UnpackedFloat.le (.finite .positive m₁ e₁ h₁) (.finite .positive m₂ e₂ h₂) = true ↔
      e₁ < e₂ ∨ (e₁ = e₂ ∧ m₁ ≤ m₂) := by
  simp only [UnpackedFloat.le, UnpackedFloat.compare, Option.any_some, Ordering.isLE_then_iff_and]
  rw [Int.isLE_compare, Nat.isLE_compare, Int.compare_eq_lt]
  omega

/-- The finite floats from one on, by the way they are kept. -/
theorem one_le_iff {x : Float} :
    (x.isFinite = true ∧ 1.0 ≤ x) ↔
      ∃ m e hm, x.toModel.unpack = .finite .positive m e hm ∧ 2 ^ 52 ≤ m ∧ -52 ≤ e := by
  have hle : 1.0 ≤ x ↔ UnpackedFloat.le (1.0 : Float).toModel.unpack x.toModel.unpack = true := by
    change decide (Float.Model.le _ _ = true) = true ↔ _
    rw [decide_eq_true_iff]
    rfl
  have hfinite : x.isFinite = x.toModel.unpack.isFinite := rfl
  rw [hle, hfinite, unpack_one]
  constructor
  · rintro ⟨hfin, hone⟩
    cases hx : x.toModel.unpack with
    | infinity s => simp [hx, UnpackedFloat.isFinite] at hfin
    | notANumber => simp [hx, UnpackedFloat.isFinite] at hfin
    | zero s => simp [hx, UnpackedFloat.le, UnpackedFloat.compare] at hone
    | finite s m e hm =>
        rw [hx] at hone
        cases s with
        | negative => simp [UnpackedFloat.le, UnpackedFloat.compare] at hone
        | positive =>
            rw [le_positive_iff] at hone
            have hnormal := (held_of_unpack hx).normal
            exact ⟨m, e, hm, rfl, by omega, by omega⟩
  · rintro ⟨m, e, hm, hx, hnormal, he⟩
    rw [hx, le_positive_iff]
    exact ⟨rfl, by omega⟩

theorem one_le_toUInt32 {x : Float} (hfin : x.isFinite = true) (h : 1.0 ≤ x) :
    1 ≤ x.toUInt32.toNat := by
  obtain ⟨m, e, hm, hx, hnormal, he⟩ := one_le_iff.mp ⟨hfin, h⟩
  have hpow : 2 ^ (-e).toNat ≤ m * 2 ^ e.toNat :=
    calc 2 ^ (-e).toNat ≤ 2 ^ 52 := Nat.pow_le_pow_right (by decide) (by omega)
      _ ≤ m := hnormal
      _ ≤ m * 2 ^ e.toNat := Nat.le_mul_of_pos_right m (Nat.two_pow_pos _)
  have hwhole : 1 ≤ m * 2 ^ e.toNat / 2 ^ (-e).toNat := by
    rw [Nat.le_div_iff_mul_le (Nat.two_pow_pos _), Nat.one_mul]
    exact hpow
  rw [toUInt32_toNat hx]
  omega

end CodeReview.Decimal
