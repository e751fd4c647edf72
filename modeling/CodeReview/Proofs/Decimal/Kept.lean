import CodeReview.Proofs.Decimal.Whole

/-!
Numbers cut to 53 binary digits. The unit in which a number is counted does not matter for what is
kept of it, so a computation with floats can be followed in whole numbers of one unit.
-/

namespace CodeReview.Decimal

/-! ### The nearest whole number -/

/-- A quotient may be written in lower terms. -/
theorem Ratio.round_mul_right (tie : Tie) (n d : Nat) {k : Nat} (hk : 0 < k) :
    Ratio.round tie ⟨n * k, d * k⟩ = Ratio.round tie ⟨n, d⟩ := by
  have hcompare : compare (2 * (n % d * k)) (d * k) = compare (2 * (n % d)) d := by
    rw [← Nat.mul_assoc, Nat.compare_eq_ite_lt, Nat.compare_eq_ite_lt]
    simp only [Nat.mul_lt_mul_right hk]
  simp only [Ratio.round, Nat.mul_div_mul_right n d hk, Nat.mul_mod_mul_right, hcompare]

theorem Ratio.round_congr (tie : Tie) {a b c d : Nat} (hb : 0 < b) (hd : 0 < d)
    (h : a * d = c * b) : Ratio.round tie ⟨a, b⟩ = Ratio.round tie ⟨c, d⟩ := by
  rw [← Ratio.round_mul_right tie a b hd, h, Nat.mul_comm b d, Ratio.round_mul_right tie c d hb]

theorem Ratio.round_mul_self (tie : Tie) (n : Nat) {k : Nat} (hk : 0 < k) :
    Ratio.round tie ⟨n * k, k⟩ = n := by
  have h := Ratio.round_mul_right tie n 1 hk
  rw [Nat.one_mul] at h
  rw [h]
  simp [Ratio.round, Nat.compare_eq_ite_lt, Nat.mod_one]

theorem Ratio.round_up (n : Nat) {d : Nat} (hd : 0 < d) :
    Ratio.round .up ⟨n, d⟩ = (2 * n + d) / (2 * d) := by
  have hdiv := Nat.div_add_mod' n d
  have hmod := Nat.mod_lt n hd
  have hquotient {q : Nat} (hlow : 2 * (q * d) ≤ 2 * n + d) (hhigh : 2 * n < 2 * (q * d) + d) :
      q = (2 * n + d) / (2 * d) := by
    rw [eq_comm, Nat.div_eq_iff (by omega), show q * (2 * d) = 2 * (q * d) by ring]
    omega
  rw [Ratio.round]
  dsimp only
  split
  · rename_i h
    rw [Nat.compare_eq_lt] at h
    apply hquotient <;> omega
  · rename_i h
    rw [Nat.compare_eq_gt] at h
    apply hquotient <;> rw [Nat.add_mul] <;> omega
  · rename_i h
    rw [Nat.compare_eq_eq] at h
    apply hquotient <;> rw [Nat.add_mul] <;> omega

/-- `q` times `w` is nearest to `n`. It is below a middle only where `q` is even. -/
structure Nearest (n w q : Nat) : Prop where
  low : 2 * n ≤ 2 * (q * w) + w
  high : 2 * (q * w) ≤ 2 * n + w
  even : 2 * n = 2 * (q * w) + w → q % 2 = 0

/-- The unit may be a larger one. -/
theorem Nearest.of_mul {n w q k : Nat} (hk : 0 < k) (h : Nearest (n * k) (w * k) q) :
    Nearest n w q := by
  obtain ⟨hlow, hhigh, heven⟩ := h
  constructor
  · exact Nat.le_of_mul_le_mul_right (by linarith) hk
  · exact Nat.le_of_mul_le_mul_right (by linarith) hk
  · intro hmid
    apply heven
    rw [← Nat.mul_assoc, hmid]
    ring

theorem nearest_round (n : Nat) {d : Nat} (hd : 0 < d) :
    Nearest n d (Ratio.round .toEven ⟨n, d⟩) := by
  have hdiv := Nat.div_add_mod' n d
  have hmod := Nat.mod_lt n hd
  rw [Ratio.round]
  dsimp only
  split
  · rename_i h
    rw [Nat.compare_eq_lt] at h
    constructor <;> omega
  · rename_i h
    rw [Nat.compare_eq_gt] at h
    constructor <;> rw [Nat.add_mul] <;> omega
  · rename_i h
    rw [Nat.compare_eq_eq] at h
    obtain hq | hq := Nat.mod_two_eq_zero_or_one (n / d)
    · rw [hq, Nat.add_zero]
      constructor <;> omega
    · rw [hq]
      constructor <;> rw [Nat.add_mul] <;> omega

/-! ### What is kept of a number -/

/-- The number of binary digits after the first 53. -/
def spare (n : Nat) : Nat :=
  n.log2 - 52

/-- What a float keeps of a natural number: the first 53 binary digits, rounded. -/
def kept (n : Nat) : Nat :=
  Ratio.round .toEven ⟨n, 2 ^ spare n⟩ * 2 ^ spare n

theorem kept_of_lt {n : Nat} (h : n < 2 ^ 53) : kept n = n := by
  have hspare : spare n = 0 := Nat.sub_eq_zero_of_le (log2_le_of_lt h)
  have hone := Ratio.round_mul_self .toEven n Nat.one_pos
  rw [Nat.mul_one] at hone
  rw [kept, hspare, Nat.pow_zero, Nat.mul_one, hone]

/-- Zeros at the end do not matter. -/
theorem kept_mul_two_pow (n k : Nat) : kept (n * 2 ^ k) = kept n * 2 ^ k := by
  obtain rfl | hn := Nat.eq_zero_or_pos n
  · rw [Nat.zero_mul, kept_of_lt (by decide), Nat.zero_mul]
  have hlog := log2_mul_two_pow hn k
  by_cases hlarge : 52 ≤ n.log2
  · have hspare : spare (n * 2 ^ k) = spare n + k := by
      rw [spare, spare]
      omega
    rw [kept, hspare, Nat.pow_add, Ratio.round_mul_right _ _ _ (Nat.two_pow_pos k), kept,
      Nat.mul_assoc]
  · -- There are digits to spare among the zeros only.
    have hsmall : n < 2 ^ 53 := Nat.lt_of_lt_of_le Nat.lt_log2_self
      (Nat.pow_le_pow_right (by decide) (by omega))
    have hspare : spare (n * 2 ^ k) ≤ k := by
      rw [spare]
      omega
    have hsplit : n * 2 ^ k =
        n * 2 ^ (k - spare (n * 2 ^ k)) * 2 ^ spare (n * 2 ^ k) := by
      rw [Nat.mul_assoc, ← Nat.pow_add, Nat.sub_add_cancel hspare]
    rw [kept_of_lt hsmall, kept]
    generalize spare (n * 2 ^ k) = j at hsplit
    rw [hsplit, Ratio.round_mul_self _ _ (Nat.two_pow_pos j)]

theorem nearest_kept (n : Nat) :
    ∃ q, kept n = q * 2 ^ spare n ∧ Nearest n (2 ^ spare n) q :=
  ⟨_, rfl, nearest_round n (Nat.two_pow_pos _)⟩

theorem lt_two_pow_spare (n : Nat) : n < 2 ^ (53 + spare n) :=
  Nat.lt_of_lt_of_le Nat.lt_log2_self
    (Nat.pow_le_pow_right (by decide) (by rw [spare]; omega))

theorem spare_le {n k : Nat} (h : n < 2 ^ (53 + k)) : spare n ≤ k := by
  have hlog : n.log2 ≤ 52 + k := log2_le_of_lt (by rwa [Nat.add_right_comm])
  rw [spare]
  omega

theorem le_spare {n k : Nat} (h : 2 ^ (52 + k) ≤ n) : k ≤ spare n := by
  have hn : n ≠ 0 := Nat.ne_of_gt (Nat.lt_of_lt_of_le (Nat.two_pow_pos _) h)
  have hlog := (Nat.le_log2 hn).mpr h
  rw [spare]
  omega

theorem kept_near {n k : Nat} (h : n < 2 ^ (53 + k)) :
    2 * kept n ≤ 2 * n + 2 ^ k ∧ 2 * n ≤ 2 * kept n + 2 ^ k := by
  obtain ⟨q, hq, hnear⟩ := nearest_kept n
  have hunit : 2 ^ spare n ≤ 2 ^ k := Nat.pow_le_pow_right (by decide) (spare_le h)
  have hlow := hnear.low
  have hhigh := hnear.high
  rw [hq]
  omega

/-- The first digit is kept. -/
theorem lead_le_kept {n : Nat} (h : 2 ^ 52 ≤ n) : 2 ^ 52 * 2 ^ spare n ≤ kept n :=
  Nat.mul_le_mul_right _ (Nat.le_trans (lead_bounds h).1 (Ratio.le_round .toEven ⟨n, 2 ^ spare n⟩))

/-- With zeros at its end a number of more digits is kept as it is. -/
theorem kept_of_dvd {n k : Nat} (hdvd : 2 ^ k ∣ n) (h : n < 2 ^ (53 + k)) : kept n = n := by
  obtain ⟨m, rfl⟩ := hdvd
  rw [Nat.pow_add, Nat.mul_comm] at h
  rw [Nat.mul_comm, kept_mul_two_pow, kept_of_lt (Nat.lt_of_mul_lt_mul_right h)]

/-- Rounding does not fall below a number with as many zeros at its end, if the number is hardly
larger. -/
theorem le_kept {n g : Nat} (hg : 2 ^ (spare n + 1) ∣ g) (h : 2 * g ≤ 2 * n + 2 ^ spare n) :
    g ≤ kept n := by
  obtain ⟨q, hq, hnear⟩ := nearest_kept n
  obtain ⟨c, rfl⟩ := hg
  have hlow := hnear.low
  have heven := hnear.even
  have hpos := Nat.two_pow_pos (spare n)
  rw [hq]
  rw [Nat.pow_succ, Nat.mul_right_comm, Nat.mul_assoc _ c 2, Nat.mul_comm _ (c * 2)] at h ⊢
  generalize 2 ^ spare n = w at *
  apply Nat.mul_le_mul_right
  -- One unit less would be a middle that was rounded down to an odd number.
  by_contra hlt
  have hstep : (q + 1) * w ≤ c * 2 * w := Nat.mul_le_mul_right w (by omega)
  rw [Nat.add_mul] at hstep
  have hmid := heven (by omega)
  have hless : ¬ (q + 2) * w ≤ c * 2 * w := by
    rw [Nat.add_mul]
    omega
  exact hless (Nat.mul_le_mul_right w (by omega))

/-! ### Numbers with a sign -/

/-- What a float keeps of an integer. -/
def keptInt (z : Int) : Int :=
  z.sign * kept z.natAbs

@[simp] theorem keptInt_natCast (n : Nat) : keptInt n = kept n := by
  obtain rfl | hn := Nat.eq_zero_or_pos n
  · rfl
  · rw [keptInt, Int.sign_natCast_of_ne_zero (by omega), Int.one_mul, Int.natAbs_natCast]

theorem keptInt_of_lt {z : Int} (h : z.natAbs < 2 ^ 53) : keptInt z = z := by
  rw [keptInt, kept_of_lt h, Int.sign_mul_natAbs]

theorem kept_toNat (z : Int) : (kept z.toNat : Int) = max (keptInt z) 0 := by
  obtain hz | hz := Int.le_total 0 z
  · have hkept := keptInt_natCast z.toNat
    rw [Int.toNat_of_nonneg hz] at hkept
    omega
  · have hkept : keptInt z ≤ 0 :=
      Int.mul_nonpos_of_nonpos_of_nonneg (Int.sign_nonpos_iff.mpr hz) (Int.natCast_nonneg _)
    have hzero : kept 0 = 0 := rfl
    rw [Int.toNat_of_nonpos hz, hzero]
    omega

theorem natAbs_mul_two_pow (z : Int) (k : Nat) : (z * 2 ^ k).natAbs = z.natAbs * 2 ^ k := by
  rw [Int.natAbs_mul, Int.natAbs_pow]
  rfl

theorem keptInt_mul_two_pow (z : Int) (k : Nat) : keptInt (z * 2 ^ k) = keptInt z * 2 ^ k := by
  have hpos : (0 : Int) < 2 ^ k := Int.pow_pos (by decide)
  rw [keptInt, natAbs_mul_two_pow, kept_mul_two_pow, Int.sign_mul, Int.sign_eq_one_of_pos hpos,
    keptInt]
  push_cast
  ring

/-- Of two ways to write a number, one has the digits of the other and then zeros. -/
theorem exists_shift {y z e f : Int} (h : (y : ℚ) * 2 ^ e = z * 2 ^ f) :
    (∃ k : Nat, y = z * 2 ^ k ∧ f = e + k) ∨ ∃ k : Nat, z = y * 2 ^ k ∧ e = f + k := by
  have hshift {y z e f : Int} (h : (y : ℚ) * 2 ^ e = z * 2 ^ f) (hle : e ≤ f) :
      ∃ k : Nat, y = z * 2 ^ k ∧ f = e + k := by
    obtain ⟨k, rfl⟩ := Int.le.dest hle
    have hpos : (2 : ℚ) ^ e ≠ 0 := zpow_ne_zero _ two_ne_zero
    rw [zpow_add₀ two_ne_zero, zpow_natCast, mul_left_comm, mul_comm] at h
    exact ⟨k, by exact_mod_cast mul_left_cancel₀ hpos h, rfl⟩
  obtain hle | hle := Int.le_total e f
  · exact .inl (hshift h hle)
  · exact .inr (hshift h.symm hle)

theorem keptInt_congr {y z e f : Int} (h : (y : ℚ) * 2 ^ e = z * 2 ^ f) :
    (keptInt y : ℚ) * 2 ^ e = keptInt z * 2 ^ f := by
  obtain ⟨k, rfl, rfl⟩ | ⟨k, rfl, rfl⟩ := exists_shift h
  · rw [keptInt_mul_two_pow, zpow_add₀ two_ne_zero, zpow_natCast]
    push_cast
    ring
  · rw [keptInt_mul_two_pow, zpow_add₀ two_ne_zero, zpow_natCast]
    push_cast
    ring

/-- A number of units of a power of two that is neither too large nor too small for a float. -/
def InRange (z i : Int) : Prop :=
  z = 0 ∨ (-1022 ≤ z.natAbs.log2 + i ∧ z.natAbs.log2 + i ≤ 1022)

theorem inRange_of_lt {z i : Int} (hz : z.natAbs < 2 ^ 256) (hi : -1022 ≤ i) (hi' : i ≤ 0) :
    InRange z i := by
  have hlog : z.natAbs.log2 ≤ 255 := log2_le_of_lt hz
  exact .inr ⟨by omega, by omega⟩

theorem InRange.congr {y z e f : Int} (hz : InRange z f) (h : (y : ℚ) * 2 ^ e = z * 2 ^ f) :
    InRange y e := by
  obtain rfl | hy := eq_or_ne y 0
  · exact .inl rfl
  obtain ⟨k, rfl, rfl⟩ | ⟨k, rfl, rfl⟩ := exists_shift h
  · obtain rfl | hlog := hz
    · exact absurd (Int.zero_mul _) hy
    · have hne : z ≠ 0 := left_ne_zero_of_mul hy
      right
      rw [natAbs_mul_two_pow, log2_mul_two_pow (Int.natAbs_pos.mpr hne)]
      omega
  · obtain hzero | hlog := hz
    · exact absurd hzero (mul_ne_zero hy (pow_ne_zero k two_ne_zero))
    · right
      rw [natAbs_mul_two_pow, log2_mul_two_pow (Int.natAbs_pos.mpr hy)] at hlog
      omega

end CodeReview.Decimal
