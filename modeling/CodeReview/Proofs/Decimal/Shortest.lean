import CodeReview.Decimal.Text
import CodeReview.Proofs.Decimal.Bounds

/-!
The shortest decimal of a float. It is never empty, and it is not much larger or smaller than the
float, so it can be laid out and read again.
-/

namespace CodeReview.Decimal

open Float.Model Float.Model.UnpackedFloat

/-! ### Magnitudes -/

theorem unpackExponent_toNat (b : BitVec 64) :
    (@unpackExponent .binary64 b).toNat = b.toNat / 2 ^ 52 % 2 ^ 11 := by
  change ((b.extractLsb 62 52).cast _).toNat = _
  rw [BitVec.toNat_cast, BitVec.extractLsb_toNat, Nat.shiftRight_eq_div_pow]

theorem unpackMantissa_toNat (b : BitVec 64) :
    (@unpackMantissa .binary64 b).toNat = b.toNat % 2 ^ 52 := by
  change ((b.extractLsb 51 0).cast _).toNat = _
  rw [BitVec.toNat_cast, BitVec.extractLsb_toNat, Nat.shiftRight_zero]

theorem magnitude_eq (x : Float) :
    Magnitude.ofFloat x =
      if (@unpackExponent .binary64 x.toBits.toBitVec).toNat = 0 then
        ⟨(@unpackMantissa .binary64 x.toBits.toBitVec).toNat, -1074⟩
      else
        ⟨2 ^ 52 + (@unpackMantissa .binary64 x.toBits.toBitVec).toNat,
          (@unpackExponent .binary64 x.toBits.toBitVec).toNat - 1075⟩ := by
  rw [unpackExponent_toNat, unpackMantissa_toNat]
  rfl

/-- The magnitude of a finite float is made of the mantissa and the exponent that it keeps. -/
theorem magnitude_of_unpack {x : Float} {s m e hm} (h : x.toModel.unpack = .finite s m e hm) :
    Magnitude.ofFloat x = ⟨m, e⟩ := by
  change UnpackedFloat.unpack .binary64 x.toBits.toBitVec = _ at h
  rw [UnpackedFloat.unpack] at h
  simp only at h
  rw [magnitude_eq]
  split at h
  · split at h <;> cases h
  · split at h
    · rename_i hsub
      have hE : (@unpackExponent .binary64 x.toBits.toBitVec).toNat = 0 := by
        rw [hsub]
        rfl
      split at h
      · cases h
      · injection h with _ hmant hexpo
        rw [hE] at hexpo
        rw [if_pos hE, hmant, ← hexpo]
        rfl
    · rename_i hnormal
      have hE : (@unpackExponent .binary64 x.toBits.toBitVec).toNat ≠ 0 :=
        fun h => hnormal (BitVec.eq_of_toNat_eq h)
      injection h with _ hmant hexpo
      rw [toNat_withLeadingOne] at hmant
      rw [if_neg hE, hmant, ← hexpo]
      rfl

theorem magnitude_of_unpack_zero {x : Float} {s} (h : x.toModel.unpack = .zero s) :
    Magnitude.ofFloat x = ⟨0, -1074⟩ := by
  change UnpackedFloat.unpack .binary64 x.toBits.toBitVec = _ at h
  rw [UnpackedFloat.unpack] at h
  simp only at h
  rw [magnitude_eq]
  split at h
  · split at h <;> cases h
  · split at h
    · rename_i hsub
      split at h
      · rename_i hzero
        rw [hsub, hzero]
        rfl
      · cases h
    · cases h

theorem unpack_of_isFinite {x : Float} (h : x.isFinite = true) (h0 : (x == 0) = false) :
    ∃ s m e hm, x.toModel.unpack = .finite s m e hm := by
  change x.toModel.unpack.isFinite = true at h
  change UnpackedFloat.beq x.toModel.unpack (0 : Float).toModel.unpack = false at h0
  have hzero : (0 : Float).toModel.unpack = .zero .positive := rfl
  rw [hzero] at h0
  cases hx : x.toModel.unpack with
  | finite s m e hm => exact ⟨s, m, e, hm, rfl⟩
  | zero s =>
      rw [hx] at h0
      cases h0
  | infinity s =>
      rw [hx] at h
      cases h
  | notANumber =>
      rw [hx] at h
      cases h

theorem unpack_abs {x : Float} {s m e hm} (h : x.toModel.unpack = .finite s m e hm) :
    x.abs.toModel.unpack = .finite .positive m e hm := by
  change (Float.Model.pack x.toModel.unpack.abs).unpack = _
  rw [h]
  exact unpack_pack (held_of_unpack h)

/-! ### Rounding -/

theorem Ratio.le_round (tie : Tie) (r : Ratio) : r.num / r.den ≤ r.round tie := by
  unfold Ratio.round
  dsimp only
  split
  · exact Nat.le_refl _
  · exact Nat.le_succ _
  · cases tie with
    | up => exact Nat.le_succ _
    | toEven => exact Nat.le_add_right _ _

theorem Ratio.round_le (tie : Tie) (r : Ratio) : r.round tie ≤ r.num / r.den + 1 := by
  unfold Ratio.round
  dsimp only
  split
  · exact Nat.le_succ _
  · exact Nat.le_refl _
  · cases tie with
    | up => exact Nat.le_refl _
    | toEven =>
        dsimp only
        omega

theorem Magnitude.inUnits_eq (v : Magnitude) (unit : Int) :
    v.inUnits unit =
      ⟨v.mantissa * 2 ^ v.exponent.toNat * 10 ^ (-unit).toNat,
       2 ^ (-v.exponent).toNat * 10 ^ unit.toNat⟩ := rfl

/-- A magnitude below `2 ^ j` is below `2 ^ j * 10 ^ -unit` units. -/
theorem Magnitude.quotient_lt {v : Magnitude} {j : Nat} (unit : Int)
    (h : totalExponent v.mantissa v.exponent ≤ j) :
    (v.inUnits unit).num / (v.inUnits unit).den < 2 ^ j * 10 ^ (-unit).toNat := by
  have hm : v.mantissa < 2 ^ (v.mantissa.log2 + 1) := Nat.lt_log2_self
  have hsize : v.mantissa * 2 ^ v.exponent.toNat < 2 ^ j * 2 ^ (-v.exponent).toNat := by
    rw [totalExponent_eq] at h
    calc v.mantissa * 2 ^ v.exponent.toNat
        < 2 ^ (v.mantissa.log2 + 1) * 2 ^ v.exponent.toNat :=
          Nat.mul_lt_mul_of_pos_right hm (Nat.two_pow_pos _)
      _ ≤ 2 ^ j * 2 ^ (-v.exponent).toNat := by
          rw [← Nat.pow_add, ← Nat.pow_add]
          exact Nat.pow_le_pow_right (by decide) (by omega)
  have hden : 0 < 2 ^ (-v.exponent).toNat * 10 ^ unit.toNat :=
    Nat.mul_pos (Nat.two_pow_pos _) (Nat.pow_pos (by decide))
  rw [inUnits_eq, Nat.div_lt_iff_lt_mul hden]
  calc v.mantissa * 2 ^ v.exponent.toNat * 10 ^ (-unit).toNat
      < 2 ^ j * 2 ^ (-v.exponent).toNat * 10 ^ (-unit).toNat :=
        Nat.mul_lt_mul_of_pos_right hsize (Nat.pow_pos (by decide))
    _ = 2 ^ j * 10 ^ (-unit).toNat * 2 ^ (-v.exponent).toNat := Nat.mul_right_comm ..
    _ ≤ 2 ^ j * 10 ^ (-unit).toNat * (2 ^ (-v.exponent).toNat * 10 ^ unit.toNat) :=
        Nat.mul_le_mul_left _ (Nat.le_mul_of_pos_right _ (Nat.pow_pos (by decide)))

theorem Small.totalExponent_le {x : Float} {k : Nat} (h : Small k x) :
    (Magnitude.ofFloat x).mantissa = 0 ∨
      totalExponent (Magnitude.ofFloat x).mantissa (Magnitude.ofFloat x).exponent ≤ k := by
  rw [Small] at h
  generalize hx : x.toModel.unpack = u at h
  cases h with
  | zero s =>
      left
      rw [magnitude_of_unpack_zero hx]
  | finite h =>
      right
      rwa [magnitude_of_unpack hx]

theorem roundToNat_lt {x : Float} {k : Nat} (tie : Tie) (h : Small k x) :
    roundToNat tie x < 2 ^ (k + 1) := by
  have hround := ((Magnitude.ofFloat x).inUnits 0).round_le tie
  have hquotient : ((Magnitude.ofFloat x).inUnits 0).num /
      ((Magnitude.ofFloat x).inUnits 0).den < 2 ^ k := by
    rcases h.totalExponent_le with h0 | hk
    · rw [Magnitude.inUnits_eq, h0]
      simp
    · exact Nat.lt_of_lt_of_eq (Magnitude.quotient_lt 0 hk) (Nat.mul_one _)
  have hpow : 2 ^ (k + 1) = 2 ^ k * 2 := Nat.pow_succ ..
  have hpos := Nat.two_pow_pos k
  rw [roundToNat]
  omega

/-! ### Powers of ten -/

theorem scale_go_le (v : Magnitude) (k : Int) (tries : Nat) :
    Magnitude.scale.go v k tries ≤ k + tries := by
  induction tries generalizing k with
  | zero => exact Int.le_of_eq (Int.add_zero k).symm
  | succ tries ih =>
      rw [Magnitude.scale.go]
      split
      · omega
      · have := ih (k + 1)
        omega

/-- A power of ten that is not the first one tried comes after one that is not too large. -/
theorem scale_go_spec (v : Magnitude) (k : Int) (tries : Nat) :
    Magnitude.scale.go v k tries = k ∨
      (v.inUnits (Magnitude.scale.go v k tries - 1)).den ≤
        (v.inUnits (Magnitude.scale.go v k tries - 1)).num := by
  induction tries generalizing k with
  | zero => exact .inl rfl
  | succ tries ih =>
      rw [Magnitude.scale.go]
      split
      · exact .inl rfl
      · rename_i hk
        right
        rcases ih (k + 1) with hnext | hlater
        · rw [hnext, Int.add_sub_cancel]
          exact Nat.le_of_not_lt hk
        · exact hlater

/-- Three digits are at most ten binary digits. -/
theorem ten_pow_le_two_pow {n k : Nat} (h : 10 * n ≤ 3 * k) : 10 ^ n ≤ 2 ^ k := by
  have hcubes : (10 ^ n) ^ 3 ≤ (2 ^ k) ^ 3 :=
    calc (10 ^ n) ^ 3 = 1000 ^ n := by rw [← Nat.pow_mul, Nat.mul_comm, Nat.pow_mul]
      _ ≤ 1024 ^ n := Nat.pow_le_pow_left (by decide) n
      _ = 2 ^ (10 * n) := by rw [Nat.pow_mul]
      _ ≤ 2 ^ (3 * k) := Nat.pow_le_pow_right (by decide) h
      _ = (2 ^ k) ^ 3 := by rw [← Nat.pow_mul, Nat.mul_comm]
  exact (Nat.pow_le_pow_iff_left (by decide)).mp hcubes

/-- A magnitude from one on is at least `10 ^ (scale - 17)`. -/
theorem den_le_num_scale {v : Magnitude} (hm : v.mantissa ≠ 0)
    (hsize : totalExponent v.mantissa v.exponent ≤ 1024) (hscale : 17 < v.scale) :
    (v.inUnits (v.scale - 17)).den ≤ (v.inUnits (v.scale - 17)).num := by
  rw [totalExponent_eq] at hsize
  have hnum (unit : Int) (hunit : 0 ≤ unit) :
      (v.inUnits unit).num = v.mantissa * 2 ^ v.exponent.toNat := by
    rw [Magnitude.inUnits_eq, show (-unit).toNat = 0 by omega, Nat.pow_zero, Nat.mul_one]
  rcases scale_go_spec v
    (Int.fdiv (((v.mantissa.log2 : Int) + v.exponent) * 30103) 100000) 3 with hfirst | hlater
  -- Either the first power that is tried is the one, or the power before it is not above the float.
  · change v.scale = _ at hfirst
    rw [Int.fdiv_eq_ediv_of_nonneg _ (by decide)] at hfirst
    rw [hnum _ (by omega)]
    calc 2 ^ (-v.exponent).toNat * 10 ^ (v.scale - 17).toNat
        ≤ 2 ^ (-v.exponent).toNat * 2 ^ (v.mantissa.log2 + v.exponent).toNat :=
          Nat.mul_le_mul_left _ (ten_pow_le_two_pow (by omega))
      _ ≤ 2 ^ v.mantissa.log2 * 2 ^ v.exponent.toNat := by
          rw [← Nat.pow_add, ← Nat.pow_add]
          exact Nat.pow_le_pow_right (by decide) (by omega)
      _ ≤ v.mantissa * 2 ^ v.exponent.toNat :=
          Nat.mul_le_mul_right _ (Nat.log2_self_le hm)
  · change (v.inUnits (v.scale - 1)).den ≤ (v.inUnits (v.scale - 1)).num at hlater
    rw [hnum _ (by omega)] at hlater ⊢
    refine Nat.le_trans (Nat.mul_le_mul_left _ ?_) hlater
    exact Nat.pow_le_pow_right (by decide) (by omega)

theorem scale_le {v : Magnitude} {j : Nat} (h : totalExponent v.mantissa v.exponent ≤ j) :
    v.scale ≤ j + 3 := by
  have hgo := scale_go_le v (Int.fdiv (((v.mantissa.log2 : Int) + v.exponent) * 30103) 100000) 3
  change v.scale ≤ _ at hgo
  rw [totalExponent_eq] at h
  rw [Int.fdiv_eq_ediv_of_nonneg _ (by decide)] at hgo
  omega

/-! ### The shortest decimal -/

/-- Digits in units of a power of ten that are next to a magnitude, or a zero that is no multiple of
a larger power. -/
structure Scaled.Near (d : Scaled) (v : Magnitude) : Prop where
  proper : d.digits ≠ 0 ∨ d.exponent ≤ 0
  digits : d.digits ≤ (v.inUnits d.exponent).num / (v.inUnits d.exponent).den + 1
  exponent : d.exponent < v.scale

theorem toBits_ofScientific_zero (s : Bool) (e : Nat) :
    (Float.ofScientific 0 s e).toBits = 0 := by
  by_cases he : e ≤ 22
  · have h : ∀ s : Bool, ∀ e : Fin 23, (Float.ofScientific 0 s e).toBits = 0 := by decide +kernel
    exact h s ⟨e, Nat.lt_succ_of_le he⟩
  · rw [Float.ofScientific, dif_neg fun h => he h.2]
    rfl

theorem digits_ne_zero_of_readsAs {d : Scaled} {x : Float} (h : d.readsAs x = true)
    (hx : x.toBits ≠ 0) : d.digits ≠ 0 := by
  intro h0
  rw [Scaled.readsAs, Scaled.toFloat, h0, toBits_ofScientific_zero, beq_iff_eq] at h
  exact hx h.symm

theorem near_candidate {x : Float} {unit : Int} {d : Scaled} (hx : x.toBits ≠ 0)
    (hunit : unit < (Magnitude.ofFloat x).scale) (h : candidate? x unit = some d) :
    d.Near (Magnitude.ofFloat x) := by
  simp only [candidate?] at h
  split at h
  · rename_i hbelow _
    cases h
    have hq := digits_ne_zero_of_readsAs hbelow hx
    have hround := Ratio.le_round .toEven ((Magnitude.ofFloat x).inUnits unit)
    have hpos := Nat.lt_of_lt_of_le (Nat.pos_of_ne_zero hq) hround
    have hle := Ratio.round_le .toEven ((Magnitude.ofFloat x).inUnits unit)
    exact ⟨.inl (Nat.ne_of_gt hpos), hle, hunit⟩
  · rename_i hbelow _
    cases h
    exact ⟨.inl (digits_ne_zero_of_readsAs hbelow hx), Nat.le_succ _, hunit⟩
  · cases h
    exact ⟨.inl (Nat.succ_ne_zero _), Nat.le_refl _, hunit⟩
  · cases h

theorem near_rounded {v : Magnitude} (hm : v.mantissa ≠ 0)
    (hsize : totalExponent v.mantissa v.exponent ≤ 1024) :
    Scaled.Near ⟨(v.inUnits (v.scale - 17)).round .toEven, v.scale - 17⟩ v := by
  refine ⟨?_, Ratio.round_le .toEven (v.inUnits (v.scale - 17)), by dsimp only; omega⟩
  by_cases hscale : v.scale ≤ 17
  · exact .inr (by dsimp only; omega)
  · left
    have hle := den_le_num_scale hm hsize (by omega)
    have hden : 0 < (v.inUnits (v.scale - 17)).den :=
      Nat.mul_pos (Nat.two_pow_pos _) (Nat.pow_pos (by decide))
    have hquotient := Nat.div_pos hle hden
    have hround := Ratio.le_round .toEven (v.inUnits (v.scale - 17))
    exact Nat.ne_of_gt (Nat.lt_of_lt_of_le hquotient hround)

/-- The shortest decimal is one that is next to the float, without zeros at its end. -/
theorem exists_near {x : Float} {s m e hm} (h : x.toModel.unpack = .finite s m e hm) :
    ∃ d : Scaled, d.Near (Magnitude.ofFloat x) ∧ shortest x = d.strip := by
  have hmagnitude := magnitude_of_unpack h
  have hheld := held_of_unpack h
  have hbits : x.toBits ≠ 0 := by
    intro h0
    have hzero : Magnitude.ofFloat x = ⟨0, -1074⟩ := by
      rw [Magnitude.ofFloat, h0]
      rfl
    rw [hzero] at hmagnitude
    injection hmagnitude with h0
    omega
  have hsize : totalExponent m e ≤ 1024 := by
    have hlog := log2_le_of_lt hheld.fits
    have hmost := hheld.most
    rw [totalExponent_eq]
    omega
  refine ⟨_, ?_, shortest.eq_1 x⟩
  cases hfound : (List.range 17).findSome? fun (n : Nat) =>
      candidate? x ((Magnitude.ofFloat x).scale - (n + 1)) with
  | none =>
      rw [Option.getD_none]
      apply near_rounded
      · rw [hmagnitude]
        exact Nat.ne_of_gt hm
      · rw [hmagnitude]
        exact hsize
  | some d =>
      obtain ⟨n, _, hn⟩ := List.exists_of_findSome?_eq_some hfound
      exact near_candidate hbits (by omega) hn

/-! ### Zeros at the end -/

/-- The power of ten of the first digit. -/
def Scaled.lead (d : Scaled) : Int :=
  d.exponent + (digitsOf d.digits).length - 1

theorem length_digitsOf {n : Nat} (h : 10 ≤ n) :
    (digitsOf n).length = (digitsOf (n / 10)).length + 1 := by
  rw [digitsOf, digitsOf, Nat.toDigits_eq_if (by decide), if_neg (by omega), List.length_append]
  rfl

theorem length_digitsOf_le {n k : Nat} (h : n ≤ 10 ^ k) : (digitsOf n).length ≤ k + 1 := by
  rw [digitsOf, Nat.length_toDigits_le_iff (by decide) (by omega)]
  exact Nat.lt_of_le_of_lt h (Nat.pow_lt_pow_right (by decide) (Nat.lt_succ_self k))

theorem lead_strip_go (n : Nat) (e : Int) (fuel : Nat) :
    (Scaled.strip.go n e fuel).lead = Scaled.lead ⟨n, e⟩ := by
  induction fuel generalizing n e with
  | zero => rfl
  | succ fuel ih =>
      rw [Scaled.strip.go]
      split
      · have hlength := length_digitsOf (n := n) (by omega)
        rw [ih, Scaled.lead, Scaled.lead]
        dsimp only
        omega
      · rfl

theorem lead_strip (d : Scaled) : d.strip.lead = d.lead :=
  lead_strip_go d.digits d.exponent d.digits

theorem proper_strip_go {n : Nat} {e : Int} {fuel : Nat} (h : n ≠ 0 ∨ e ≤ 0) :
    (Scaled.strip.go n e fuel).digits ≠ 0 ∨ (Scaled.strip.go n e fuel).exponent ≤ 0 := by
  induction fuel generalizing n e with
  | zero => exact h
  | succ fuel ih =>
      rw [Scaled.strip.go]
      split
      · exact ih (.inl (by omega))
      · exact h

/-- A zero is written without zeros before the point that do not stand alone. -/
theorem proper_shortest {x : Float} {s m e hm} (h : x.toModel.unpack = .finite s m e hm) :
    (shortest x).digits ≠ 0 ∨ (shortest x).exponent ≤ 0 := by
  obtain ⟨d, hd, hshortest⟩ := exists_near h
  rw [hshortest]
  exact proper_strip_go hd.proper

/-- The shortest decimal is hardly larger than the float. -/
theorem lead_shortest_le {x : Float} {s m e hm} {k : Nat}
    (h : x.toModel.unpack = .finite s m e hm) (hsize : totalExponent m e ≤ k) :
    (shortest x).lead ≤ 2 * k + 2 := by
  obtain ⟨d, hd, hshortest⟩ := exists_near h
  have hdigits := hd.digits
  have hexponent := hd.exponent
  rw [magnitude_of_unpack h] at hdigits hexponent
  have hscale := scale_le (v := ⟨m, e⟩) hsize
  have hquotient := Magnitude.quotient_lt (v := ⟨m, e⟩) d.exponent hsize
  have hten : 2 ^ k * 10 ^ (-d.exponent).toNat ≤ 10 ^ (k + (-d.exponent).toNat) := by
    rw [Nat.pow_add]
    exact Nat.mul_le_mul_right _ (Nat.pow_le_pow_left (by decide) k)
  have hlength := length_digitsOf_le
    (Nat.le_trans hdigits (Nat.le_trans (Nat.succ_le_of_lt hquotient) hten))
  rw [hshortest, lead_strip, Scaled.lead]
  omega

end CodeReview.Decimal
