import CodeReview.Proofs.Decimal.Binary64

/-!
How large the results of floating point arithmetic can get. The bounds are powers of two and leave
room for rounding, which is all that is needed to show that a computation stays away from infinity.
-/

namespace CodeReview.Decimal

open Float.Model Float.Model.UnpackedFloat

/-- A finite float of a size below `2 ^ k`. -/
inductive Below (k : Nat) : UnpackedFloat → Prop where
  | zero (s : Sign) : Below k (.zero s)
  | finite {s m e hm} (h : totalExponent m e ≤ k) : Below k (.finite s m e hm)

instance (k : Nat) : (u : UnpackedFloat) → Decidable (Below k u)
  | .finite _ m e _ => decidable_of_iff (totalExponent m e ≤ k) ⟨.finite, fun | .finite h => h⟩
  | .zero s => .isTrue (.zero s)
  | .infinity _ => .isFalse nofun
  | .notANumber => .isFalse nofun

theorem Below.mono {k l : Nat} {u : UnpackedFloat} (h : Below k u) (hkl : k ≤ l) : Below l u := by
  cases h with
  | zero s => exact .zero s
  | finite h => exact .finite (Int.le_trans h (by omega))

/-! ### Digits -/

theorem log2_div_le (m s : Nat) (h : m / 2 ^ s ≠ 0) : (m / 2 ^ s).log2 + s ≤ m.log2 := by
  have hm : m ≠ 0 := by
    rintro rfl
    simp at h
  rw [Nat.le_log2 hm, Nat.pow_add]
  calc 2 ^ (m / 2 ^ s).log2 * 2 ^ s ≤ m / 2 ^ s * 2 ^ s :=
        Nat.mul_le_mul_right _ (Nat.log2_self_le h)
    _ ≤ m := Nat.div_mul_le_self m (2 ^ s)

theorem log2_mono {m n : Nat} (h : m ≤ n) : m.log2 ≤ n.log2 :=
  log2_le_of_lt (Nat.lt_of_le_of_lt h Nat.lt_log2_self)

theorem log2_succ_le (m : Nat) : (m + 1).log2 ≤ m.log2 + 1 := by
  apply log2_le_of_lt
  have h : m < 2 ^ (m.log2 + 1) := Nat.lt_log2_self
  have hpow : 2 ^ (m.log2 + 1 + 1) = 2 ^ (m.log2 + 1) * 2 := Nat.pow_succ ..
  omega

theorem log2_mul_le (m n : Nat) : (m * n).log2 ≤ m.log2 + n.log2 + 1 := by
  apply log2_le_of_lt
  have hpow : 2 ^ (m.log2 + n.log2 + 1 + 1) = 2 ^ (m.log2 + 1) * 2 ^ (n.log2 + 1) := by
    rw [← Nat.pow_add]
    congr 1
    omega
  rw [hpow]
  exact Nat.mul_lt_mul'' Nat.lt_log2_self Nat.lt_log2_self

theorem log2_mul_two_pow {m : Nat} (hm : 0 < m) (k : Nat) : (m * 2 ^ k).log2 = m.log2 + k := by
  rw [Nat.log2_eq_iff (Nat.ne_of_gt (Nat.mul_pos hm (Nat.two_pow_pos k))), Nat.pow_add,
    Nat.add_right_comm, Nat.pow_add]
  exact ⟨Nat.mul_le_mul_right _ (Nat.log2_self_le (Nat.ne_of_gt hm)),
    Nat.mul_lt_mul_of_pos_right Nat.lt_log2_self (Nat.two_pow_pos k)⟩

theorem log2_shiftLeft_le (m d : Nat) : (m <<< d).log2 ≤ m.log2 + d := by
  apply log2_le_of_lt
  rw [Nat.shiftLeft_eq, Nat.add_right_comm, Nat.pow_add]
  exact Nat.mul_lt_mul_of_pos_right Nat.lt_log2_self (Nat.two_pow_pos d)

/-! ### Rounding -/

theorem roundedMantissa_le (em : ExtendedMantissa) : em.roundedMantissa ≤ em.mantissa + 1 := by
  obtain ⟨m, r, s⟩ := em
  cases r with
  | false => cases s <;> exact Nat.le_succ m
  | true =>
      cases s with
      | false =>
          change m + m % 2 ≤ m + 1
          omega
      | true => exact Nat.le_refl _

theorem le_roundedMantissa (em : ExtendedMantissa) : em.mantissa ≤ em.roundedMantissa := by
  obtain ⟨m, r, s⟩ := em
  cases r with
  | false => cases s <;> exact Nat.le_refl m
  | true => cases s <;> exact Nat.le_add_right m _

theorem mantissa_ofMantissaAndAccuracy (m : Nat) (acc : Accuracy) :
    (ExtendedMantissa.ofMantissaAndAccuracy m acc).mantissa = m := by
  cases acc with
  | exact => rfl
  | inexact o => cases o <;> rfl

theorem totalExponent_eq (m : Nat) (e : Int) : totalExponent m e = m.log2 + 1 + e := rfl

/-- Rounding adds at most one binary digit. -/
theorem below_roundWithAccuracy {s : Sign} {m : Nat} {e : Int} {acc : Accuracy} {k : Nat}
    (h : totalExponent m e ≤ k) : Below (k + 1) (roundWithAccuracy .binary64 s m e acc) := by
  have htarget := targetExponent_eq m e
  rw [totalExponent_eq] at h
  simp only [roundWithAccuracy, shiftToTargetExponent, shiftToExponent, shiftRight_mantissa,
    mantissa_ofMantissaAndAccuracy]
  split
  · exact .zero s
  · rename_i hfinal
    apply Below.finite
    -- The mantissa loses `d` digits and is rounded to `r`; after a carry it loses `d'` more.
    revert hfinal
    generalize hshift : (Format.binary64.targetExponent (totalExponent m e) - e).toNat = d
    generalize hround : ExtendedMantissa.roundedMantissa _ = r
    generalize (Format.binary64.targetExponent _ - (e + (d : Int))).toNat = d'
    intro hfinal
    have hr : r ≤ m / 2 ^ d + 1 := by
      rw [← hround]
      refine Nat.le_trans (roundedMantissa_le _) (Nat.le_of_eq ?_)
      rw [shiftRight_mantissa, mantissa_ofMantissaAndAccuracy]
    have hlog : (r.log2 : Int) + 1 + (e + d) ≤ k + 1 := by
      -- Nothing may be left of the mantissa, and then `r` is at most one.
      by_cases hm : m / 2 ^ d = 0
      · have hr0 : r.log2 ≤ 0 := log2_le_of_lt (by omega)
        have hd : m < 2 ^ d := (Nat.div_eq_zero_iff_lt (Nat.two_pow_pos d)).mp hm
        have hlt : m.log2 ≤ d :=
          log2_le_of_lt (Nat.lt_of_lt_of_le hd (Nat.pow_le_pow_right (by decide) d.le_succ))
        omega
      · have hsucc := log2_succ_le (m / 2 ^ d)
        have hdiv := log2_div_le m d hm
        have hmono := log2_mono hr
        omega
    have := log2_div_le r d' hfinal
    rw [totalExponent_eq]
    omega

/-- Digits are shifted in without a change of the size. -/
theorem totalExponent_decreaseExponent (m : Nat) (e t : Int) :
    totalExponent (m <<< (e - t).toNat) (e - (e - t).toNat) ≤ totalExponent m e := by
  have hlog := log2_shiftLeft_le m (e - t).toNat
  rw [totalExponent_eq, totalExponent_eq]
  omega

theorem below_round {s : Sign} {m : Nat} {e : Int} {k : Nat} (h : totalExponent m e ≤ k) :
    Below (k + 1) (round .binary64 s m e) :=
  below_roundWithAccuracy (Int.le_trans (totalExponent_decreaseExponent m e _) h)

theorem below_normalize {n : Int} {e : Int} {s : Sign} {k : Nat}
    (h : totalExponent n.natAbs e ≤ k) : Below (k + 1) (normalize .binary64 n e s) := by
  rw [UnpackedFloat.normalize]
  cases hn : compare n 0 with
  | lt =>
      rw [Int.compare_eq_lt] at hn
      apply below_round
      rwa [show (-n).toNat = n.natAbs by omega]
  | eq => exact .zero s
  | gt =>
      rw [Int.compare_eq_gt] at hn
      apply below_round
      rwa [show n.toNat = n.natAbs by omega]

theorem lt_of_totalExponent_le {m : Nat} {e : Int} {k : Nat} (h : totalExponent m e ≤ k) :
    m < 2 ^ (k - e).toNat := by
  rw [totalExponent_eq] at h
  exact Nat.lt_of_lt_of_le Nat.lt_log2_self (Nat.pow_le_pow_right (by decide) (by omega))

/-- A sum is at most one digit larger than its larger term. -/
theorem totalExponent_sum {m₁ m₂ n : Nat} {e : Int} {k : Nat} (h₁ : totalExponent m₁ e ≤ k)
    (h₂ : totalExponent m₂ e ≤ k) (hn : n ≤ m₁ + m₂) : totalExponent n e ≤ k + 1 := by
  have hlog : n.log2 ≤ (k - e).toNat := by
    apply log2_le_of_lt
    rw [Nat.pow_succ]
    have := lt_of_totalExponent_le h₁
    have := lt_of_totalExponent_le h₂
    omega
  rw [totalExponent_eq] at h₁ ⊢
  omega

/-! ### Packing -/

theorem below_unpack_packComponents {s : Sign} {E : BitVec 11} {M : BitVec 52} {k : Nat}
    (hE : E.toNat < 2047) (hk : E.toNat ≤ k + 1022) :
    Below k (UnpackedFloat.unpack .binary64 (packComponents .binary64 s E M)) := by
  have hfinite : E ≠ -1#11 := by
    rintro rfl
    exact absurd hE (by decide)
  have hM : M.toNat.log2 ≤ 51 := log2_le_of_lt M.isLt
  unfold UnpackedFloat.unpack
  simp only [unpackExponent_packComponents, unpackMantissa_packComponents,
    unpackSign_packComponents, ofBitVec_toBitVec]
  rw [if_neg hfinite]
  split
  · rename_i hsub
    split
    · exact .zero s
    · apply Below.finite
      change totalExponent _ (_ - 1075 + 1) ≤ _
      rw [totalExponent_eq, hsub]
      change (M.toNat.log2 : Int) + 1 + (0 - 1075 + 1) ≤ _
      omega
  · have hlog : (1#1 ++ M).toNat.log2 ≤ 52 := log2_le_of_lt (1#1 ++ M).isLt
    apply Below.finite
    change totalExponent _ (_ - 1075) ≤ _
    rw [totalExponent_eq]
    omega

/-- Packing keeps the size of a float that is far from the largest ones. -/
theorem Below.unpack_pack {u : UnpackedFloat} {k : Nat} (hk : k ≤ 900) (h : Below k u) :
    Below k (Float.Model.pack u).unpack := by
  cases h with
  | zero s => exact below_unpack_packComponents (by decide) (Nat.zero_le _)
  | @finite s m e hm h =>
      rw [totalExponent_eq] at h
      have hbias : (e + Format.binary64.exponentBias + (52 : Nat)).toNat = (e + 1075).toNat := by
        change (e + 1023 + 52).toNat = _
        omega
      change Below k (UnpackedFloat.unpack .binary64 (UnpackedFloat.pack .binary64 _))
      unfold UnpackedFloat.pack
      dsimp only
      rw [hbias, if_neg (by omega)]
      have hexp : (BitVec.ofNat 11 (e + 1075).toNat).toNat = (e + 1075).toNat :=
        Nat.mod_eq_of_lt (by omega)
      split
      · rename_i hnormal
        change m.log2 + 1 = 53 at hnormal
        exact below_unpack_packComponents (by omega) (by omega)
      · exact below_unpack_packComponents (by decide) (Nat.zero_le _)

/-! ### Operations -/

theorem Below.mul {k l : Nat} {u w : UnpackedFloat} (hu : Below k u) (hw : Below l w) :
    Below (k + l + 1) (UnpackedFloat.mul .binary64 u w) := by
  cases hu with
  | zero s => cases hw <;> exact .zero _
  | @finite s m e hm hu =>
      cases hw with
      | zero s' => exact .zero _
      | @finite s' m' e' hm' hw =>
          apply below_roundWithAccuracy
          rw [totalExponent_eq] at hu hw ⊢
          have := log2_mul_le m m'
          omega

theorem natAbs_apply (s : Sign) (n : Nat) : (s.apply n).natAbs = n := by
  cases s with
  | positive => exact Int.natAbs_natCast n
  | negative => exact (Int.natAbs_neg n).trans (Int.natAbs_natCast n)

/-- Sums and differences of two floats have at most two digits more than both. -/
theorem below_normalize_of_natAbs_le {k : Nat} {m₁ m₂ : Nat} {e₁ e₂ : Int} {n : Int} {s : Sign}
    (h₁ : totalExponent m₁ e₁ ≤ k) (h₂ : totalExponent m₂ e₂ ≤ k)
    (hn : n.natAbs ≤ (decreaseExponent m₁ e₁ (min e₁ e₂)).1 +
      (decreaseExponent m₂ e₂ (min e₁ e₂)).1) :
    Below (k + 2) (normalize .binary64 n (min e₁ e₂) s) := by
  have hleft := Int.le_trans (totalExponent_decreaseExponent m₁ e₁ (min e₁ e₂)) h₁
  have hright := Int.le_trans (totalExponent_decreaseExponent m₂ e₂ (min e₁ e₂)) h₂
  rw [show e₁ - ((e₁ - min e₁ e₂).toNat : Int) = min e₁ e₂ by omega] at hleft
  rw [show e₂ - ((e₂ - min e₁ e₂).toNat : Int) = min e₁ e₂ by omega] at hright
  exact below_normalize (totalExponent_sum hleft hright hn)

theorem Below.add {k : Nat} {u w : UnpackedFloat} (hu : Below k u) (hw : Below k w) :
    Below (k + 2) (UnpackedFloat.add .binary64 u w) := by
  cases hu with
  | zero s =>
      cases hw with
      | zero s' =>
          rw [UnpackedFloat.add]
          split <;> exact .zero _
      | finite hw => exact (Below.finite hw).mono (Nat.le_add_right k 2)
  | finite hu =>
      cases hw with
      | zero s' => exact (Below.finite hu).mono (Nat.le_add_right k 2)
      | finite hw =>
          apply below_normalize_of_natAbs_le hu hw
          refine Nat.le_trans (Int.natAbs_add_le _ _) (Nat.le_of_eq ?_)
          rw [natAbs_apply, natAbs_apply]
          rfl

theorem Below.sub {k : Nat} {u w : UnpackedFloat} (hu : Below k u) (hw : Below k w) :
    Below (k + 2) (UnpackedFloat.sub .binary64 u w) := by
  cases hu with
  | zero s =>
      cases hw with
      | zero s' =>
          rw [UnpackedFloat.sub]
          split <;> exact .zero _
      | finite hw => exact (Below.finite hw).mono (Nat.le_add_right k 2)
  | finite hu =>
      cases hw with
      | zero s' => exact (Below.finite hu).mono (Nat.le_add_right k 2)
      | finite hw =>
          apply below_normalize_of_natAbs_le hu hw
          refine Nat.le_trans (Int.natAbs_sub_le _ _) (Nat.le_of_eq ?_)
          rw [natAbs_apply, natAbs_apply]
          rfl

theorem totalExponent_divCore {m₁ m₂ : Nat} {e₁ e₂ : Int} {k : Nat} (hm : 0 < m₂)
    (h₁ : totalExponent m₁ e₁ ≤ k) (h₂ : 1 ≤ totalExponent m₂ e₂) :
    totalExponent (divCore .binary64 m₁ e₁ m₂ e₂).1 (divCore .binary64 m₁ e₁ m₂ e₂).2.1 ≤ k := by
  have htarget : Format.binary64.targetExponent (totalExponent m₁ e₁ - totalExponent m₂ e₂) =
      max (totalExponent m₁ e₁ - totalExponent m₂ e₂ - 53) (-1074) := rfl
  simp only [divCore]
  rw [htarget, totalExponent_eq, Nat.shiftLeft_eq]
  rw [totalExponent_eq] at h₁ h₂
  rw [totalExponent_eq, totalExponent_eq]
  generalize ht : min (e₁ - e₂) (max _ (-1074)) = t
  generalize hd : (e₁ - e₂ - t).toNat = d
  have hle : t ≤ e₁ - e₂ := by omega
  by_cases hq : m₁ * 2 ^ d / m₂ = 0
  · rw [hq, Nat.log2_zero]
    omega
  · have hquot : (m₁ * 2 ^ d / m₂).log2 + m₂.log2 ≤ m₁.log2 + d := by
      rw [← Nat.lt_add_one_iff, ← Nat.pow_lt_pow_iff_right (a := 2) (by decide), Nat.pow_add]
      calc 2 ^ (m₁ * 2 ^ d / m₂).log2 * 2 ^ m₂.log2 ≤ m₁ * 2 ^ d / m₂ * m₂ :=
            Nat.mul_le_mul (Nat.log2_self_le hq) (Nat.log2_self_le (Nat.ne_of_gt hm))
        _ ≤ m₁ * 2 ^ d := Nat.div_mul_le_self ..
        _ < 2 ^ (m₁.log2 + 1) * 2 ^ d :=
            Nat.mul_lt_mul_of_pos_right Nat.lt_log2_self (Nat.two_pow_pos d)
        _ = 2 ^ (m₁.log2 + d + 1) := by rw [← Nat.pow_add, Nat.add_right_comm]
    omega

/-- Division by a number from one on. -/
theorem Below.div {k : Nat} {u w : UnpackedFloat} {s m e hm} (hu : Below k u)
    (hw : w = .finite s m e hm) (hone : 1 ≤ totalExponent m e) :
    Below (k + 1) (UnpackedFloat.div .binary64 u w) := by
  subst hw
  cases hu with
  | zero s => exact .zero _
  | finite hu => exact below_roundWithAccuracy (totalExponent_divCore hm hu hone)

theorem below_ofNat {n k : Nat} (h : n < 2 ^ (k + 1)) :
    Below (k + 2) (UnpackedFloat.ofNat .binary64 n) := by
  have := log2_le_of_lt h
  apply below_normalize
  rw [totalExponent_eq, Int.natAbs_natCast]
  omega

/-! ### Floats -/

/-- A float of a size below `2 ^ k`. -/
def Small (k : Nat) (x : Float) : Prop :=
  Below k x.toModel.unpack

instance (k : Nat) (x : Float) : Decidable (Small k x) :=
  inferInstanceAs (Decidable (Below k x.toModel.unpack))

theorem Small.mono {k l : Nat} {x : Float} (h : Small k x) (hkl : k ≤ l) : Small l x :=
  Below.mono h hkl

theorem Small.isFinite {k : Nat} {x : Float} (h : Small k x) : x.isFinite = true := by
  change x.toModel.unpack.isFinite = true
  generalize hx : x.toModel.unpack = u
  rw [Small, hx] at h
  cases h <;> rfl

theorem Small.isInf {k : Nat} {x : Float} (h : Small k x) : x.isInf = false := by
  change x.toModel.unpack.isInf = false
  generalize hx : x.toModel.unpack = u
  rw [Small, hx] at h
  cases h <;> rfl

theorem Small.mul {k l : Nat} {x y : Float} (hx : Small k x) (hy : Small l y)
    (hkl : k + l + 1 ≤ 900) : Small (k + l + 1) (x * y) :=
  Below.unpack_pack hkl (Below.mul hx hy)

theorem Small.add {k : Nat} {x y : Float} (hx : Small k x) (hy : Small k y)
    (hk : k + 2 ≤ 900) : Small (k + 2) (x + y) :=
  Below.unpack_pack hk (Below.add hx hy)

theorem Small.sub {k : Nat} {x y : Float} (hx : Small k x) (hy : Small k y)
    (hk : k + 2 ≤ 900) : Small (k + 2) (x - y) :=
  Below.unpack_pack hk (Below.sub hx hy)

/-- Division by a number from one on. -/
theorem Small.div {k : Nat} {x y : Float} (hx : Small k x) (hfin : y.isFinite = true)
    (hone : 1.0 ≤ y) (hk : k + 1 ≤ 900) : Small (k + 1) (x / y) := by
  obtain ⟨m, e, hm, hy, hnormal, he⟩ := one_le_iff.mp ⟨hfin, hone⟩
  have hlog : 52 ≤ m.log2 := (Nat.le_log2 (Nat.ne_of_gt hm)).mpr hnormal
  refine Below.unpack_pack hk (Below.div hx hy ?_)
  rw [totalExponent_eq]
  omega

theorem small_toFloat {n : UInt64} : Small 65 n.toFloat :=
  Below.unpack_pack (by decide) (below_ofNat n.toNat_lt)

theorem ofScientific_eq_round {n : Nat} (hn : 0 < n) :
    UnpackedFloat.ofScientific .binary64 n 0 =
      roundWithAccuracy .binary64 .positive (n * 2 ^ 53) (-53) .exact := by
  have hexpo : (-((2 : Int) ^ Format.binary64.exponentBits + n.log2)) ≤ 0 := by
    change -((2048 : Int) + n.log2) ≤ 0
    omega
  have hbits : Format.binary64.mantissaBits = 53 := rfl
  rw [UnpackedFloat.ofScientific, dif_neg (by omega), if_neg (by decide), if_neg (by omega),
    if_pos (by decide), UnpackedFloat.mul, hbits, Nat.shiftLeft_eq, Int.toNat_zero, Nat.pow_zero,
    Nat.mul_one, Int.add_zero]
  rfl

theorem small_ofNat {n k : Nat} (h : n < 2 ^ (k + 1)) (hk : 64 ≤ k) (hk' : k + 3 ≤ 900) :
    Small (k + 3) (Float.ofNat n) := by
  change Small (k + 3) (Float.ofScientific n false 0)
  unfold Float.ofScientific
  -- A number that fits into a word is converted; a larger one is multiplied before it is packed.
  split
  · have hone : Small 1 (Float.exactlyRepresentablePowersOfTen[0]) := by decide +kernel
    exact (small_toFloat.mul hone (by decide)).mono (by omega)
  · refine Below.unpack_pack hk' ?_
    change Below _ (UnpackedFloat.ofScientific .binary64 n 0)
    obtain rfl | hn := Nat.eq_zero_or_pos n
    · exact .zero _
    · have hlog := log2_le_of_lt h
      rw [ofScientific_eq_round hn]
      apply below_roundWithAccuracy
      rw [totalExponent_eq, log2_mul_two_pow hn]
      omega

theorem le_iff_unpack {x y : Float} :
    x ≤ y ↔ UnpackedFloat.le x.toModel.unpack y.toModel.unpack = true := by
  change decide (Float.Model.le _ _ = true) = true ↔ _
  rw [decide_eq_true_iff]
  rfl

theorem small_of_le_one {x : Float} (hfinite : x.isFinite = true) (hzero : 0.0 ≤ x)
    (hone : x ≤ 1.0) : Small 1 x := by
  have hunpack : (0.0 : Float).toModel.unpack = .zero .positive := by rfl
  change x.toModel.unpack.isFinite = true at hfinite
  rw [le_iff_unpack, hunpack] at hzero
  rw [le_iff_unpack, unpack_one] at hone
  rw [Small]
  cases hx : x.toModel.unpack with
  | infinity s => simp [hx, UnpackedFloat.isFinite] at hfinite
  | notANumber => simp [hx, UnpackedFloat.isFinite] at hfinite
  | zero s => exact .zero s
  | finite s m e hm =>
      rw [hx] at hzero hone
      cases s with
      | negative => simp [UnpackedFloat.le, UnpackedFloat.compare] at hzero
      | positive =>
          rw [le_positive_iff] at hone
          have hlog := log2_le_of_lt (held_of_unpack hx).fits
          refine .finite ?_
          rw [totalExponent_eq]
          omega

end CodeReview.Decimal
