import CodeReview.Proofs.Decimal.Kept

/-!
Floating point arithmetic as arithmetic of whole numbers. A float is a whole number of times a
power of two, and so is the exact result of an operation; the operation gives what is kept of it.
-/

namespace CodeReview.Decimal

open Float.Model Float.Model.UnpackedFloat

/-! ### Rounding of floats -/

theorem shiftRight_eq (m k : Nat) :
    (⟨m, false, false⟩ : ExtendedMantissa) >>> k =
      ⟨m / 2 ^ k, decide (2 ^ k ≤ 2 * (m % 2 ^ k)),
        decide (m % 2 ^ k ≠ 0 ∧ 2 * (m % 2 ^ k) ≠ 2 ^ k)⟩ := by
  change Nat.repeat ExtendedMantissa.shiftRightOne k ⟨m, false, false⟩ = _
  induction k with
  | zero => simp [Nat.repeat, Nat.mod_one]
  | succ k ih =>
      have hmod := Nat.mod_lt m (Nat.two_pow_pos k)
      have hsplit : m % 2 ^ (k + 1) = m % 2 ^ k + 2 ^ k * (m / 2 ^ k % 2) := Nat.mod_pow_succ
      rw [Nat.repeat, ih, ExtendedMantissa.shiftRightOne, hsplit, Nat.pow_succ]
      obtain hbit | hbit := Nat.mod_two_eq_zero_or_one (m / 2 ^ k)
      all_goals
        simp only [ExtendedMantissa.mk.injEq, Nat.div_div_eq_div_mul, hbit, true_and,
          ← Bool.decide_or, decide_eq_decide]
        refine ⟨?_, by omega⟩
        simp
        omega

/-- The digits that are shifted out decide how the others are rounded. -/
theorem roundedMantissa_shiftRight (m k : Nat) :
    ((⟨m, false, false⟩ : ExtendedMantissa) >>> k).roundedMantissa =
      Ratio.round .toEven ⟨m, 2 ^ k⟩ := by
  have hpos := Nat.two_pow_pos k
  rw [shiftRight_eq, Ratio.round]
  dsimp only
  split
  · rename_i h
    rw [Nat.compare_eq_lt] at h
    rw [decide_eq_false (by omega)]
    cases decide (m % 2 ^ k ≠ 0 ∧ 2 * (m % 2 ^ k) ≠ 2 ^ k) <;> rfl
  · rename_i h
    rw [Nat.compare_eq_gt] at h
    rw [decide_eq_true (by omega), decide_eq_true (by omega)]
    rfl
  · rename_i h
    rw [Nat.compare_eq_eq] at h
    rw [decide_eq_true (by omega), decide_eq_false (by omega)]
    rfl

/-- A mantissa of 53 binary digits or more is rounded to what a float keeps of it. -/
theorem exists_roundWithAccuracy_kept {s : Sign} {m : Nat} {e : Int} (hm : 2 ^ 52 ≤ m)
    (hleast : -1022 ≤ m.log2 + e) (hmost : m.log2 + e ≤ 1022) :
    ∃ m' e' hm', roundWithAccuracy .binary64 s m e .exact = .finite s m' e' hm' ∧ Held m' e' ∧
      (m' : ℚ) * 2 ^ e' = kept m * 2 ^ e := by
  obtain ⟨hlead, hfits⟩ := lead_bounds hm
  have hlog : 52 ≤ m.log2 := (Nat.le_log2 (by omega)).mpr hm
  have hlower := Nat.le_trans hlead (Ratio.le_round .toEven ⟨m, 2 ^ (m.log2 - 52)⟩)
  have hupper := Nat.le_trans (Ratio.round_le .toEven ⟨m, 2 ^ (m.log2 - 52)⟩) hfits
  have hkept : (kept m : ℚ) * 2 ^ e =
      Ratio.round .toEven ⟨m, 2 ^ (m.log2 - 52)⟩ * 2 ^ (e + (m.log2 - 52 : Nat)) := by
    rw [kept, spare, zpow_add₀ two_ne_zero, zpow_natCast]
    push_cast
    ring
  rw [hkept, roundWithAccuracy, shiftToTargetExponent_eq hm hleast]
  dsimp only
  rw [ExtendedMantissa.ofMantissaAndAccuracy, roundedMantissa_shiftRight]
  generalize Ratio.round .toEven ⟨m, 2 ^ (m.log2 - 52)⟩ = r at hlower hupper ⊢
  obtain ⟨e₁, he₁⟩ : ∃ e₁, e₁ = e + (m.log2 - 52 : Nat) := ⟨_, rfl⟩
  rw [← he₁]
  -- Rounding may have carried to the next power of two.
  obtain hless | rfl := Nat.lt_or_eq_of_le hupper
  · have hheld : Held r e₁ := ⟨hless, by omega, by omega, .inr hlower⟩
    rw [shiftToTargetExponent_held hheld]
    dsimp only
    exact ⟨r, e₁, by omega, dif_neg (by omega), hheld, rfl⟩
  · have hlog₁ : (2 ^ 53 : Nat).log2 = 53 := Nat.log2_two_pow
    have hhalf : 2 ^ 53 / 2 ^ (53 - 52) = 2 ^ 52 := by decide
    rw [shiftToTargetExponent_eq hlower (by omega), hlog₁]
    dsimp only
    rw [shiftRight_mantissa, mantissa_ofMantissaAndAccuracy, hhalf]
    refine ⟨2 ^ 52, e₁ + 1, by decide, rfl, ⟨by decide, by omega, by omega, .inr (by decide)⟩, ?_⟩
    rw [zpow_add₀ two_ne_zero]
    norm_num
    ring

/-! ### Values -/

theorem apply_neg (s : Sign) (z : Int) : (-s).apply z = -s.apply z := by
  cases s with
  | positive => rfl
  | negative => exact (Int.neg_neg z).symm

theorem apply_mul (s t : Sign) (y z : Int) : (s * t).apply (y * z) = s.apply y * t.apply z := by
  cases s with
  | positive =>
      cases t with
      | positive => rfl
      | negative => exact (Int.mul_neg y z).symm
  | negative =>
      cases t with
      | positive => exact (Int.neg_mul y z).symm
      | negative => exact (Int.neg_mul_neg y z).symm

/-- Digits are shifted in without a change of the value. -/
theorem apply_shiftLeft (s : Sign) (m : Nat) {e t : Int} (h : t ≤ e) :
    ((s.apply (m <<< (e - t).toNat : Nat) : Int) : ℚ) * 2 ^ t = (s.apply m : Int) * 2 ^ e := by
  have hshift : s.apply (m <<< (e - t).toNat : Nat) = s.apply m * 2 ^ (e - t).toNat := by
    have hmul := apply_mul s .positive m (2 ^ (e - t).toNat)
    rw [Nat.shiftLeft_eq]
    cases s <;> exact_mod_cast hmul
  have hsplit : (2 : ℚ) ^ e = 2 ^ (e - t).toNat * 2 ^ t := by
    rw [← zpow_natCast, ← zpow_add₀ two_ne_zero]
    congr 1
    omega
  rw [hshift, hsplit]
  push_cast
  ring

theorem keptInt_apply (s : Sign) (m : Nat) : keptInt (s.apply m) = s.apply (kept m) := by
  cases s with
  | positive => exact keptInt_natCast m
  | negative =>
      change keptInt (-m) = -(kept m : Int)
      rw [← keptInt_natCast m, keptInt, keptInt, Int.sign_neg, Int.natAbs_neg, Int.neg_mul]

/-- A float that stands for a finite number. -/
inductive Shows : UnpackedFloat → ℚ → Prop where
  | zero {s} {q : ℚ} (hq : q = 0) : Shows (.zero s) q
  | finite {s m e hm} {q : ℚ} (h : Held m e) (hq : q = (s.apply m : Int) * 2 ^ e) :
      Shows (.finite s m e hm) q

/-- The float stands for the number. -/
def Means (x : Float) (q : ℚ) : Prop :=
  Shows x.toModel.unpack q

theorem Shows.unpack_pack {u : UnpackedFloat} {q : ℚ} (h : Shows u q) :
    Shows (Float.Model.pack u).unpack q := by
  cases h with
  | @zero s _ hq =>
      cases s with
      | positive => exact .zero hq
      | negative => exact .zero hq
  | finite h hq =>
      rw [Decimal.unpack_pack h]
      exact .finite h hq

theorem Shows.neg {u : UnpackedFloat} {q : ℚ} (h : Shows u q) : Shows u.neg (-q) := by
  cases h with
  | zero hq => exact .zero (by rw [hq, neg_zero])
  | finite h hq =>
      refine .finite h ?_
      rw [hq, apply_neg, Int.cast_neg, neg_mul]

theorem shows_roundWithAccuracy {s : Sign} {m : Nat} {e : Int} (hm : 2 ^ 52 ≤ m)
    (hleast : -1022 ≤ m.log2 + e) (hmost : m.log2 + e ≤ 1022) :
    Shows (roundWithAccuracy .binary64 s m e .exact) ((keptInt (s.apply m) : ℚ) * 2 ^ e) := by
  obtain ⟨m', e', hm', hround, hheld, hvalue⟩ :=
    exists_roundWithAccuracy_kept (s := s) hm hleast hmost
  rw [hround]
  refine .finite hheld ?_
  rw [keptInt_apply]
  cases s with
  | positive => exact_mod_cast hvalue.symm
  | negative =>
      simp only [Sign.apply, Int.cast_neg, neg_mul, neg_inj]
      exact_mod_cast hvalue.symm

theorem shows_round {s : Sign} {m : Nat} {e : Int} (hm : 0 < m)
    (hleast : -1022 ≤ m.log2 + e) (hmost : m.log2 + e ≤ 1022) :
    Shows (UnpackedFloat.round .binary64 s m e) ((keptInt (s.apply m) : ℚ) * 2 ^ e) := by
  rw [UnpackedFloat.round, targetExponent_eq]
  simp only [decreaseExponent]
  obtain ⟨t, ht⟩ : ∃ t, t = min e (m.log2 + e - 52) := ⟨_, rfl⟩
  have hamount : (e - max (m.log2 + e - 52) (-1074)).toNat = (e - t).toNat := by omega
  have hexpo : e - ((e - t).toNat : Int) = t := by omega
  have hvalue := apply_shiftLeft s m (e := e) (t := t) (by omega)
  rw [hamount, hexpo, ← keptInt_congr hvalue]
  have hlog : (m <<< (e - t).toNat).log2 = m.log2 + (e - t).toNat := by
    rw [Nat.shiftLeft_eq, log2_mul_two_pow hm]
  have hpos : 0 < m <<< (e - t).toNat := by
    rw [Nat.shiftLeft_eq]
    exact Nat.mul_pos hm (Nat.two_pow_pos _)
  exact shows_roundWithAccuracy ((Nat.le_log2 (Nat.ne_of_gt hpos)).mp (by omega)) (by omega)
    (by omega)

/-- The sum of two floats is brought to one exponent before it is rounded. -/
theorem shows_normalize {z e : Int} {s : Sign} (h : InRange z e) :
    Shows (normalize .binary64 z e s) ((keptInt z : ℚ) * 2 ^ e) := by
  rw [UnpackedFloat.normalize]
  cases hz : compare z 0 with
  | eq =>
      obtain rfl := Int.compare_eq_eq.mp hz
      exact .zero (by simp [keptInt])
  | lt =>
      have hz := Int.compare_eq_lt.mp hz
      obtain rfl | ⟨hleast, hmost⟩ := h
      · omega
      · have habs : ((-z).toNat : Int) = -z := by omega
        have hnat : (-z).toNat = z.natAbs := by omega
        have hround := shows_round (s := .negative) (m := (-z).toNat) (e := e) (by omega)
          (by rwa [hnat]) (by rwa [hnat])
        rwa [habs, Sign.apply, Int.neg_neg] at hround
  | gt =>
      have hz := Int.compare_eq_gt.mp hz
      obtain rfl | ⟨hleast, hmost⟩ := h
      · omega
      · have habs : (z.toNat : Int) = z := by omega
        have hnat : z.toNat = z.natAbs := by omega
        have hround := shows_round (s := .positive) (m := z.toNat) (e := e) (by omega)
          (by rwa [hnat]) (by rwa [hnat])
        rwa [habs, Sign.apply] at hround

/-- The product of two of the least floats would be out of range. -/
theorem lead_le_mul {m₁ m₂ : Nat} {e₁ e₂ : Int} (h₁ : Held m₁ e₁) (h₂ : Held m₂ e₂) (hm₁ : 0 < m₁)
    (hm₂ : 0 < m₂) (hleast : -1022 ≤ (m₁ * m₂).log2 + (e₁ + e₂)) : 2 ^ 52 ≤ m₁ * m₂ := by
  by_contra hless
  have hless₁ : m₁ < 2 ^ 52 := Nat.lt_of_le_of_lt (Nat.le_mul_of_pos_right m₁ hm₂) (by omega)
  have hless₂ : m₂ < 2 ^ 52 := Nat.lt_of_le_of_lt (Nat.le_mul_of_pos_left m₂ hm₁) (by omega)
  have hlog : (m₁ * m₂).log2 ≤ 51 := log2_le_of_lt (by omega)
  have hnormal₁ := h₁.normal
  have hnormal₂ := h₂.normal
  omega

theorem eq_zero_of_mul_zpow {z e : Int} (h : (z : ℚ) * 2 ^ e = 0) : z = 0 := by
  simpa [zpow_ne_zero] using h

section Operations

variable {u w : UnpackedFloat} {y z i j : Int}

/-- A float keeps all of itself. -/
theorem Shows.keptInt_eq (h : Shows u (y * 2 ^ i)) : (keptInt y : ℚ) * 2 ^ i = y * 2 ^ i := by
  cases h with
  | zero hq =>
      obtain rfl := eq_zero_of_mul_zpow hq
      rfl
  | @finite s m e _ _ h hq =>
      have hm : (s.apply m).natAbs < 2 ^ 53 := by
        rw [natAbs_apply]
        exact h.fits
      rw [keptInt_congr hq, keptInt_of_lt hm, hq]

theorem Shows.mul (hu : Shows u (y * 2 ^ i)) (hw : Shows w (z * 2 ^ j))
    (h : InRange (y * z) (i + j)) :
    Shows (UnpackedFloat.mul .binary64 u w) ((keptInt (y * z) : ℚ) * 2 ^ (i + j)) := by
  cases hu with
  | zero hq =>
      obtain rfl := eq_zero_of_mul_zpow hq
      rw [Int.zero_mul]
      cases hw <;> exact .zero (by simp [keptInt])
  | @finite s₁ m₁ e₁ hm₁ _ h₁ hq₁ =>
      cases hw with
      | zero hq =>
          obtain rfl := eq_zero_of_mul_zpow hq
          rw [Int.mul_zero]
          exact .zero (by simp [keptInt])
      | @finite s₂ m₂ e₂ hm₂ _ h₂ hq₂ =>
          have hvalue : (((s₁ * s₂).apply (m₁ * m₂ : Nat) : Int) : ℚ) * 2 ^ (e₁ + e₂) =
              (y * z : Int) * 2 ^ (i + j) := by
            rw [Int.natCast_mul, apply_mul, zpow_add₀ two_ne_zero, zpow_add₀ two_ne_zero]
            push_cast
            rw [mul_mul_mul_comm, ← hq₁, ← hq₂, mul_mul_mul_comm]
          rw [← keptInt_congr hvalue]
          obtain hnone | ⟨hleast, hmost⟩ := h.congr hvalue
          · have habs := natAbs_apply (s₁ * s₂) (m₁ * m₂)
            rw [hnone] at habs
            exact absurd habs.symm (Nat.ne_of_gt (Nat.mul_pos hm₁ hm₂))
          · rw [natAbs_apply] at hleast hmost
            exact shows_roundWithAccuracy (lead_le_mul h₁ h₂ hm₁ hm₂ hleast) hleast hmost

theorem Shows.add (hu : Shows u (y * 2 ^ i)) (hw : Shows w (z * 2 ^ i)) (h : InRange (y + z) i) :
    Shows (UnpackedFloat.add .binary64 u w) ((keptInt (y + z) : ℚ) * 2 ^ i) := by
  cases hu with
  | zero hq =>
      obtain rfl := eq_zero_of_mul_zpow hq
      rw [Int.zero_add, hw.keptInt_eq]
      cases hw with
      | zero hq =>
          rw [UnpackedFloat.add]
          split <;> exact .zero hq
      | finite h hq => exact .finite h hq
  | @finite s₁ m₁ e₁ hm₁ _ h₁ hq₁ =>
      cases hw with
      | zero hq =>
          obtain rfl := eq_zero_of_mul_zpow hq
          have hu : Shows (.finite s₁ m₁ e₁ hm₁) ((y : ℚ) * 2 ^ i) := .finite h₁ hq₁
          rw [Int.add_zero, hu.keptInt_eq]
          exact hu
      | @finite s₂ m₂ e₂ hm₂ _ h₂ hq₂ =>
          have hvalue : ((s₁.apply (m₁ <<< (e₁ - min e₁ e₂).toNat : Nat) +
              s₂.apply (m₂ <<< (e₂ - min e₁ e₂).toNat : Nat) : Int) : ℚ) * 2 ^ min e₁ e₂ =
              (y + z : Int) * 2 ^ i := by
            rw [Int.cast_add, add_mul, apply_shiftLeft _ _ (Int.min_le_left _ _),
              apply_shiftLeft _ _ (Int.min_le_right _ _), ← hq₁, ← hq₂, Int.cast_add, add_mul]
          rw [← keptInt_congr hvalue]
          exact shows_normalize (h.congr hvalue)

end Operations

/-- A difference is the sum with the negated number. -/
theorem sub_eq_add_neg (u w : UnpackedFloat) :
    UnpackedFloat.sub .binary64 u w = UnpackedFloat.add .binary64 u w.neg := by
  cases u <;> cases w <;> try rfl
  rename_i s₁ m₁ e₁ h₁ s₂ m₂ e₂ h₂
  simp only [UnpackedFloat.sub, UnpackedFloat.add, UnpackedFloat.neg, apply_neg, Int.sub_eq_add_neg]

/-! ### Floats -/

section Floats

variable {x x' : Float} {y z i j : Int}

theorem Means.mul (hx : Means x (y * 2 ^ i)) (hx' : Means x' (z * 2 ^ j))
    (h : InRange (y * z) (i + j)) : Means (x * x') (keptInt (y * z) * 2 ^ (i + j)) :=
  (Shows.mul hx hx' h).unpack_pack

theorem Means.add (hx : Means x (y * 2 ^ i)) (hx' : Means x' (z * 2 ^ i))
    (h : InRange (y + z) i) : Means (x + x') (keptInt (y + z) * 2 ^ i) :=
  (Shows.add hx hx' h).unpack_pack

theorem Means.sub (hx : Means x (y * 2 ^ i)) (hx' : Means x' (z * 2 ^ i))
    (h : InRange (y - z) i) : Means (x - x') (keptInt (y - z) * 2 ^ i) := by
  have hneg : Shows x'.toModel.unpack.neg ((-z : Int) * 2 ^ i) := by
    rw [Int.cast_neg, neg_mul]
    exact Shows.neg hx'
  change Shows (Float.Model.pack (UnpackedFloat.sub .binary64 _ _)).unpack _
  rw [sub_eq_add_neg]
  exact (Shows.add hx hneg h).unpack_pack

/-- Whole numbers up to 53 binary digits are converted as they are. -/
theorem means_toFloat {n : UInt64} (h : n.toNat < 2 ^ 53) :
    Means n.toFloat ((n.toNat : Int) * 2 ^ (0 : Int)) := by
  change Shows (Float.Model.ofNat n.toNat).unpack _
  obtain hn | hn := Nat.eq_zero_or_pos n.toNat
  · rw [hn]
    exact .zero (by simp)
  · have hlog := log2_le_of_lt h
    rw [unpack_ofNat hn h]
    refine .finite (held_nat hn h) ?_
    have hexpo : ((n.toNat.log2 : Int) - 52) = -(52 - n.toNat.log2 : Nat) := by omega
    rw [hexpo, zpow_neg, zpow_natCast]
    simp [Sign.apply]

theorem lt_iff_unpack : x < x' ↔ UnpackedFloat.lt x.toModel.unpack x'.toModel.unpack = true := by
  change decide (Float.Model.lt _ _ = true) = true ↔ _
  rw [decide_eq_true_iff]
  rfl

theorem Means.pos_iff {q : ℚ} (h : Means x q) : 0.0 < x ↔ 0 < q := by
  have hunpack : (0.0 : Float).toModel.unpack = .zero .positive := by rfl
  rw [lt_iff_unpack, hunpack]
  rw [Means] at h
  generalize x.toModel.unpack = u at h
  cases h with
  | zero hq => simp [hq, UnpackedFloat.lt, UnpackedFloat.compare]
  | @finite s m e hm _ h hq =>
      have hpow : (0 : ℚ) < 2 ^ e := zpow_pos two_pos e
      have hmant : (0 : ℚ) < m := by exact_mod_cast hm
      rw [hq, mul_pos_iff_of_pos_right hpow]
      cases s with
      | positive => simpa [UnpackedFloat.lt, UnpackedFloat.compare, Sign.apply] using hm
      | negative => simp [UnpackedFloat.lt, UnpackedFloat.compare, Sign.apply]

/-- What is below zero is cut off. -/
theorem Means.positive_part {q : ℚ} (h : Means x q) :
    Means (if 0.0 < x then x else 0.0) (max q 0) := by
  split
  · rename_i hpos
    rwa [max_eq_left (h.pos_iff.mp hpos).le]
  · rename_i hpos
    rw [max_eq_right (not_lt.mp (hpos ∘ h.pos_iff.mpr))]
    exact .zero rfl

theorem Means.magnitude {q : ℚ} (h : Means x q) :
    ((Magnitude.ofFloat x).mantissa : ℚ) * 2 ^ (Magnitude.ofFloat x).exponent = |q| := by
  rw [Means] at h
  generalize hx : x.toModel.unpack = u at h
  cases h with
  | zero hq =>
      rw [magnitude_of_unpack_zero hx, hq]
      simp
  | @finite s m e hm _ h hq =>
      rw [magnitude_of_unpack hx, hq, abs_mul, abs_of_pos (zpow_pos (two_pos (α := ℚ)) e)]
      cases s <;> simp [Sign.apply]

/-- A float is rounded as the quotient that it is. -/
theorem Means.roundToNat_eq {n k : Nat} (h : Means x (n * 2 ^ (-k : Int))) (tie : Tie) :
    roundToNat tie x = Ratio.round tie ⟨n, 2 ^ k⟩ := by
  have hvalue := h.magnitude
  rw [abs_of_nonneg (by positivity)] at hvalue
  rw [roundToNat, Magnitude.inUnits_eq]
  generalize (Magnitude.ofFloat x).mantissa = m at hvalue ⊢
  generalize (Magnitude.ofFloat x).exponent = e at hvalue ⊢
  have hsplit : (2 : ℚ) ^ e = 2 ^ e.toNat / 2 ^ (-e).toNat := by
    rw [eq_div_iff (by positivity), ← zpow_natCast, ← zpow_natCast, ← zpow_add₀ two_ne_zero]
    congr 1
    omega
  rw [hsplit, zpow_neg, zpow_natCast, mul_div_assoc', ← div_eq_mul_inv,
    div_eq_div_iff (by positivity) (by positivity)] at hvalue
  apply Ratio.round_congr tie (by positivity) (by positivity)
  simp only [Int.neg_zero, Int.toNat_zero, Nat.pow_zero, Nat.mul_one]
  exact_mod_cast hvalue

end Floats

/-- A whole number of tenths is computed as it is read. -/
theorem ofNat_div_ten {n : Nat} (h : n < 2 ^ 53) : Float.ofNat n / 10.0 = nearest n (-1) := by
  obtain rfl | hn := Nat.eq_zero_or_pos n
  · decide +kernel
  have hlog := log2_le_of_lt h
  have hlength : (Nat.toDigits 10 n).length ≤ 16 + 1 :=
    length_digitsOf_le (Nat.le_trans (Nat.le_of_lt h) (by decide))
  have hread : nearest n (-1) = n.toUInt64.toFloat / 10.0 := by
    rw [nearest, if_neg (by omega), if_neg (by omega)]
    change Float.ofScientific n true 1 = _
    rw [Float.ofScientific, dif_pos ⟨h, by decide⟩]
    rfl
  have hheld := held_nat hn h
  have hword : n.toUInt64.toFloat = .ofModel (.pack (.finite .positive (n * 2 ^ (52 - n.log2))
      (n.log2 - 52) (Nat.mul_pos hn (Nat.two_pow_pos _)))) := by
    have hexpo : (0 : Int) - (52 - n.log2 : Nat) = n.log2 - 52 := by omega
    rw [toFloat_eq (Nat.lt_trans h (by decide)), Float.Model.ofNat, ofNat_eq_round hn, hexpo,
      roundWithAccuracy_held _ hheld]
  have hconvert : Float.ofNat n = n.toUInt64.toFloat := by
    change Float.ofScientific n false 0 = _
    rw [Float.ofScientific, dif_pos ⟨h, by decide⟩, hword]
    exact mul_one_eq (unpack_pack hheld) (hheld.normal.resolve_left (by omega))
      unpack_powerOfTen_zero
  rw [hread, hconvert]

end CodeReview.Decimal
