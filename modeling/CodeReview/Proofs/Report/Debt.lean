import CodeReview.Proofs.Decimal.Arithmetic
import CodeReview.Report.Measure

/-!
How far the estimate of the work can be trusted. A hundredth is no float, so the estimate is
computed with errors; they are far too small to matter, unless the exact estimate lies in the middle
between two tenths. There the errors decide, and in some cases they do so the wrong way.
-/

namespace CodeReview.Metrics

open Decimal (Means Nearest kept nearest spare)

/-! ### The computation in whole numbers -/

/-- The float nearest to a hundredth, in units of `2 ^ -59`. -/
def hundredth : Nat := 5764607523034235

/-- The hours for `n` lines beyond fifty and `p` paths, in the same units. -/
def computedHours (n p : Nat) : Nat :=
  kept (p * 2 ^ 58 + kept (n * hundredth) - 10 * 2 ^ 58)

/-- The tenths of an hour that are reported. -/
def computedTenths (n p : Nat) : Nat :=
  (kept (10 * computedHours n p) + 2 ^ 58) / 2 ^ 59

section Computation

variable {n p : Nat}

theorem kept_size_lt (hn : n < 2 ^ 32) : kept (n * hundredth) < 2 ^ 85 := by
  have hnear := Decimal.kept_near (n := n * hundredth) (k := 32) (by rw [hundredth]; omega)
  rw [hundredth] at *
  omega

theorem computedHours_lt (hn : n < 2 ^ 32) (hp : p < 2 ^ 32) : computedHours n p < 2 ^ 91 := by
  have hsize := kept_size_lt hn
  have hnear := Decimal.kept_near (n := p * 2 ^ 58 + kept (n * hundredth) - 10 * 2 ^ 58) (k := 38)
    (by omega)
  rw [computedHours]
  omega

end Computation

theorem means_ten : Means 10.0 ((10 : Int) * 2 ^ (0 : Int)) := by
  have hten : (10.0 : Float) = (10 : UInt64).toFloat := by decide +kernel
  rw [hten]
  exact Decimal.means_toFloat (by decide)

theorem means_half : Means 0.5 ((1 : Int) * 2 ^ (-1 : Int)) := by
  have hunpack : (0.5 : Float).toModel.unpack = .finite .positive (2 ^ 52) (-53) (by decide) := by
    rfl
  rw [Means, hunpack]
  exact .finite (Decimal.held_of_unpack hunpack)
    (by norm_num [Float.Model.UnpackedFloat.Sign.apply])

theorem means_hundredth : Means 0.01 ((hundredth : Int) * 2 ^ (-59 : Int)) := by
  have hunpack : (0.01 : Float).toModel.unpack =
      .finite .positive hundredth (-59) (by decide) := by rfl
  rw [Means, hunpack]
  exact .finite (Decimal.held_of_unpack hunpack) rfl

section Floats

variable {lines paths : UInt64} (hlines : lines.toNat < 2 ^ 32) (hpaths : paths.toNat < 2 ^ 32)

include hpaths in
theorem means_complexity :
    Means ((paths.toFloat - 10.0) * 0.5)
      (((paths.toNat - 10) * 2 ^ 58 : Int) * 2 ^ (-59 : Int)) := by
  have hbeyond : Means (paths.toFloat - 10.0) ((paths.toNat - 10 : Int) * 2 ^ (0 : Int)) := by
    have h := (Decimal.means_toFloat (by omega)).sub means_ten
      (Decimal.inRange_of_lt (z := paths.toNat - 10) (by omega) (by decide) (by decide))
    rwa [Decimal.keptInt_of_lt (by omega)] at h
  have h := hbeyond.mul means_half
    (Decimal.inRange_of_lt (z := (paths.toNat - 10) * 1) (by omega) (by decide) (by decide))
  rw [Decimal.keptInt_of_lt (by omega)] at h
  convert h using 1
  norm_num
  ring

include hlines in
theorem means_size :
    Means ((lines.toNat - 50).toUInt64.toFloat * 0.01)
      ((kept ((lines.toNat - 50) * hundredth) : Int) * 2 ^ (-59 : Int)) := by
  have hword : (lines.toNat - 50).toUInt64.toNat = lines.toNat - 50 := Nat.mod_eq_of_lt (by omega)
  have h := (Decimal.means_toFloat (n := (lines.toNat - 50).toUInt64) (by omega)).mul
    means_hundredth
    (Decimal.inRange_of_lt (by rw [hword, hundredth]; omega) (by decide) (by decide))
  rw [hword] at h
  rw [← Decimal.keptInt_natCast]
  exact h

include hlines hpaths in
theorem means_hours :
    let complexity := (paths.toFloat - 10.0) * 0.5
    let size := (lines.toNat - 50).toUInt64.toFloat * 0.01
    Means (if 0.0 < complexity + size then complexity + size else 0.0)
      ((computedHours (lines.toNat - 50) paths.toNat : Int) * 2 ^ (-59 : Int)) := by
  intro complexity size
  have hsize := kept_size_lt (n := lines.toNat - 50) (by omega)
  have htotal := (means_complexity hpaths).add (means_size hlines)
    (Decimal.inRange_of_lt (by omega) (by decide) (by decide))
  have hkept := Decimal.kept_toNat
    ((paths.toNat - 10) * 2 ^ 58 + kept ((lines.toNat - 50) * hundredth))
  have htrunc : ((paths.toNat - 10) * 2 ^ 58 + kept ((lines.toNat - 50) * hundredth) : Int).toNat =
      paths.toNat * 2 ^ 58 + kept ((lines.toNat - 50) * hundredth) - 10 * 2 ^ 58 := by omega
  have hpart := htotal.positive_part
  rw [← zero_mul ((2 : ℚ) ^ (-59 : Int)), ← max_mul_of_nonneg _ _ (by positivity)] at hpart
  rw [computedHours, ← htrunc, hkept]
  exact_mod_cast hpart

include hlines hpaths in
theorem debt_eq_nearest_computedTenths :
    debt lines paths = nearest (computedTenths (lines.toNat - 50) paths.toNat) (-1) := by
  have hbound := computedHours_lt (n := lines.toNat - 50) (p := paths.toNat) (by omega) hpaths
  have hhours := means_hours hlines hpaths
  obtain ⟨h, hh⟩ : ∃ h, h = computedHours (lines.toNat - 50) paths.toNat := ⟨_, rfl⟩
  rw [← hh] at hbound hhours
  have htenths := hhours.mul means_ten
    (Decimal.inRange_of_lt (by omega) (by decide) (by decide))
  rw [show (h : Int) * 10 = (10 * h : Nat) by push_cast; ring, Decimal.keptInt_natCast] at htenths
  have hround := Means.roundToNat_eq (n := kept (10 * h)) (k := 59) (by exact_mod_cast htenths) .up
  rw [Decimal.Ratio.round_up _ (by decide)] at hround
  have hvalue : computedTenths (lines.toNat - 50) paths.toNat =
      (2 * kept (10 * h) + 2 ^ 59) / (2 * 2 ^ 59) := by
    rw [computedTenths, ← hh]
    omega
  have hnear := Decimal.kept_near (n := 10 * h) (k := 42) (by omega)
  rw [hvalue, ← Decimal.ofNat_div_ten (by omega), ← hround]
  rfl

end Floats

/-! ### The size of the errors -/

/-- The exact estimate in hundredths of an hour. -/
def hundredths (n p : Nat) : Nat :=
  50 * (p - 10) + n - 50 * (10 - p)

section Errors

variable {n p : Nat} (hn : n < 2 ^ 32) (hp : p < 2 ^ 32)

include hn hp in
/-- All errors together are smaller than a hundredth of an hour. -/
theorem computed_near :
    10 * kept (10 * computedHours n p) < (hundredths n p + 1) * 2 ^ 59 ∧
      hundredths n p * 2 ^ 59 < 10 * kept (10 * computedHours n p) + 2 ^ 59 := by
  have hsize := kept_size_lt hn
  have hhours := computedHours_lt hn hp
  have hnear₁ := Decimal.kept_near (n := n * hundredth) (k := 32) (by rw [hundredth]; omega)
  rw [computedHours] at hhours ⊢
  generalize kept (n * hundredth) = s at *
  have hnear₂ := Decimal.kept_near (n := p * 2 ^ 58 + s - 10 * 2 ^ 58) (k := 38) (by omega)
  generalize kept (p * 2 ^ 58 + s - 10 * 2 ^ 58) = h at *
  have hnear₃ := Decimal.kept_near (n := 10 * h) (k := 42) (by omega)
  rw [hundredth] at hnear₁
  rw [hundredths]
  omega

include hn hp in
/-- The tenths are right, except that a middle between two of them may be missed. -/
theorem computedTenths_eq_or :
    computedTenths n p = (hundredths n p + 5) / 10 ∨
      (hundredths n p % 10 = 5 ∧
        10 * kept (10 * computedHours n p) < hundredths n p * 2 ^ 59 ∧
        computedTenths n p + 1 = (hundredths n p + 5) / 10) := by
  obtain ⟨hlow, hhigh⟩ := computed_near hn hp
  rw [computedTenths]
  generalize kept (10 * computedHours n p) = y at *
  generalize hundredths n p = z at *
  have hdiv := Nat.div_add_mod' (y + 2 ^ 58) (2 ^ 59)
  have hmod := Nat.mod_lt (y + 2 ^ 58) (Nat.two_pow_pos 59)
  generalize (y + 2 ^ 58) / 2 ^ 59 = k at *
  have hle : 10 * k < z + 6 := by omega
  have hge : z < 10 * k + 6 := by omega
  obtain rfl | hless : z = 10 * k + 5 ∨ z < 10 * k + 5 := by omega
  · right
    omega
  · left
    omega

end Errors

/-! ### The middle between two tenths -/

/-- A number that is hardly too small is rounded up to the middle. -/
theorem le_kept_of_close {g h b : Nat} (hg : 2 ^ 58 ∣ g) (hh : h < 2 ^ 92)
    (hclose : g ≤ 10 * h + 4 * 2 ^ b) (hlarge : 8 * (2 ^ 52 * 2 ^ b) ≤ 10 * h) :
    g ≤ kept (10 * h) := by
  have hspare : spare (10 * h) ≤ 43 := Decimal.spare_le (by omega)
  have hpow : 2 ^ (52 + (b + 3)) = 8 * (2 ^ 52 * 2 ^ b) := by ring
  have hunit : 2 ^ (b + 3) ≤ 2 ^ spare (10 * h) :=
    Nat.pow_le_pow_right (by decide) (Decimal.le_spare (by omega))
  apply Decimal.le_kept ((pow_dvd_pow 2 (by omega)).trans hg)
  rw [pow_add] at hunit
  omega

/-- What is kept of a sum is hardly too small, when the sum is not. In the unit of the smaller term
the sum is `m`, and what is kept of it is `r` times `w`. -/
theorem le_of_nearest {w m r g : Nat} (hw : 0 < w) (h : 2 * w * (2 * g) ≤ 10 * m + 4)
    (hnear : Nearest m w r) : 2 * g ≤ 5 * r + 2 := by
  obtain ⟨hlow, -, heven⟩ := hnear
  -- An error of three would need an odd `r` and a sum in the middle that was rounded down to it.
  by_contra hless
  have hfar : 2 * w * (5 * r + 3) ≤ 2 * w * (2 * g) := Nat.mul_le_mul_left _ (by omega)
  have hsmall : w ≤ 4 := by nlinarith
  interval_cases w <;> omega

/-- A sum in units of its smaller term that is hardly too small stays so when it is rounded. -/
theorem le_kept_kept {z g a : Nat} (hdvd : 2 ^ a ∣ z) (hz : 2 ^ (52 + a) ≤ z) (hz' : z < 2 ^ 91)
    (hg : 2 ^ 58 ∣ g) (hclose : g ≤ 10 * z + 4 * 2 ^ a) : g ≤ kept (10 * kept z) := by
  have hlead := Decimal.lead_le_kept (n := z)
    (Nat.le_trans (Nat.pow_le_pow_right (by decide) (Nat.le_add_right 52 a)) hz)
  have hlt := Decimal.kept_near (n := z) (k := 38) hz'
  obtain ⟨r, hr, hnear⟩ := Decimal.nearest_kept z
  obtain ⟨j, hj⟩ := Nat.exists_eq_add_of_le (Decimal.le_spare hz)
  obtain ⟨k, hk⟩ := Nat.exists_eq_add_of_le (Decimal.spare_le (n := z) (k := 38) hz')
  obtain ⟨m, rfl⟩ := hdvd
  obtain ⟨c, rfl⟩ := hg
  rw [hj] at hlead hr hnear hk
  have hpos := Nat.two_pow_pos a
  have hunits : 2 ^ 58 * c = 2 * 2 ^ j * (2 * (2 ^ (k + 18) * c)) * 2 ^ a := by
    rw [show 58 = a + j + k + 18 + 2 by omega]
    ring
  have hscaled : Nearest m (2 ^ j) r := by
    apply Nearest.of_mul hpos
    rwa [Nat.mul_comm m, ← pow_add, Nat.add_comm j]
  have hle := le_of_nearest (g := 2 ^ (k + 18) * c) (Nat.two_pow_pos j)
    (Nat.le_of_mul_le_mul_right (by linarith) hpos) hscaled
  apply le_kept_of_close (b := a + j) (Nat.dvd_mul_right _ _) (by omega)
  · rw [hunits, hr, pow_add 2 a j]
    calc 2 * 2 ^ j * (2 * (2 ^ (k + 18) * c)) * 2 ^ a ≤ 2 * 2 ^ j * (5 * r + 2) * 2 ^ a :=
          Nat.mul_le_mul_right _ (Nat.mul_le_mul_left _ hle)
      _ = 10 * (r * (2 ^ a * 2 ^ j)) + 4 * (2 ^ a * 2 ^ j) := by ring
  · omega

/-- The size of `5 * q` lines as it is computed, a whole number of `2 ^ a`. -/
structure IsSize (q s a : Nat) : Prop where
  dvd : 2 ^ a ∣ s
  small : a ≤ 32
  lead : 2 ^ 52 * 2 ^ a ≤ s
  fits : 2 * s < (2 ^ 54 + 1) * 2 ^ a
  close : q * 2 ^ 59 ≤ 20 * s + 8 * 2 ^ a

theorem isSize_kept {q : Nat} (hq : 5 * q < 2 ^ 32) (hq0 : 0 < q) :
    IsSize q (kept (5 * q * hundredth)) (spare (5 * q * hundredth)) := by
  have hspare : spare (5 * q * hundredth) ≤ 32 := Decimal.spare_le (by rw [hundredth]; omega)
  have hfits := Decimal.lt_two_pow_spare (5 * q * hundredth)
  have hlead := Decimal.lead_le_kept (n := 5 * q * hundredth) (by rw [hundredth]; omega)
  obtain ⟨r, hr, hnear⟩ := Decimal.nearest_kept (5 * q * hundredth)
  have hlow := hnear.low
  have hhigh := hnear.high
  rw [hr] at hlead ⊢
  generalize spare (5 * q * hundredth) = a at *
  refine ⟨Nat.dvd_mul_left _ r, hspare, hlead, ?_, ?_⟩
  · rw [pow_add] at hfits
    linarith
  · obtain ⟨k, hk⟩ := Nat.exists_eq_add_of_le hspare
    have hpos := Nat.two_pow_pos a
    have hexact : 4 * 2 ^ a * (q * 2 ^ (k + 25)) = q * 2 ^ 59 := by
      rw [show 59 = a + k + 27 by omega]
      ring
    -- In units of the size the error is less than three, and it is a whole number.
    have hle : q * 2 ^ (k + 25) ≤ 5 * r + 2 := by
      by_contra hmore
      have hstep : 4 * 2 ^ a * (5 * r + 3) ≤ 4 * 2 ^ a * (q * 2 ^ (k + 25)) :=
        Nat.mul_le_mul_left _ (by omega)
      rw [hexact, show 4 * 2 ^ a * (5 * r + 3) = 20 * (r * 2 ^ a) + 12 * 2 ^ a by ring] at hstep
      rw [hundredth] at hlow
      omega
    calc q * 2 ^ 59 = 4 * 2 ^ a * (q * 2 ^ (k + 25)) := hexact.symm
      _ ≤ 4 * 2 ^ a * (5 * r + 2) := Nat.mul_le_mul_left _ hle
      _ = 20 * (r * 2 ^ a) + 8 * 2 ^ a := by ring

section Middle

variable {p q s a : Nat}

/-- With ten paths or more nothing is taken from the size. -/
theorem IsSize.le_kept_add (h : IsSize q s a) (hs : s < 2 ^ 85) (hp : p < 2 ^ 32) :
    (10 * p + q) * 2 ^ 58 ≤ kept (10 * kept (p * 2 ^ 58 + s)) := by
  obtain ⟨hdvd, hsmall, hlead, -, hclose⟩ := h
  have hsum : 2 ^ a ∣ p * 2 ^ 58 + s :=
    Nat.dvd_add ((pow_dvd_pow 2 (by omega)).mul_left p) hdvd
  refine le_kept_kept hsum ?_ (by omega) (Nat.dvd_mul_left _ _) (by linarith)
  rw [pow_add]
  omega

/-- With fewer paths, a size of five times what is taken from it is large enough. -/
theorem IsSize.le_kept_sub (h : IsSize q s a) (hs : s < 2 ^ 85) (hlarge : 5 * p * 2 ^ 58 ≤ s)
    (hp : 0 < p) (hq : 10 * p ≤ q) :
    (q - 10 * p) * 2 ^ 58 ≤ kept (10 * kept (s - p * 2 ^ 58)) := by
  obtain ⟨hdvd, hsmall, hlead, hfits, hclose⟩ := h
  have hunit : 2 ^ a ≤ 2 ^ 32 := Nat.pow_le_pow_right (by decide) hsmall
  have hdiff : 2 ^ a ∣ s - p * 2 ^ 58 :=
    Nat.dvd_sub hdvd ((pow_dvd_pow 2 (by omega)).mul_left p)
  obtain ⟨z, rfl⟩ := Nat.exists_eq_add_of_le' (by linarith : p * 2 ^ 58 ≤ s)
  obtain ⟨x, rfl⟩ := Nat.exists_eq_add_of_le' hq
  rw [Nat.add_sub_cancel] at hdiff ⊢
  rw [Nat.add_sub_cancel]
  -- The difference has no more digits than the size, so nothing is rounded.
  have hexact : kept z = z := by
    apply Decimal.kept_of_dvd hdiff
    rw [pow_add]
    linarith
  rw [hexact]
  apply le_kept_of_close (b := a) (Nat.dvd_mul_left _ _) (by linarith)
  · linarith
  · linarith

end Middle

theorem middle_le_of_paths {p q : Nat} (hq : 5 * q < 2 ^ 32) (hq0 : 0 < q) (hp : p < 2 ^ 32) :
    (10 * p + q) * 2 ^ 58 ≤ kept (10 * computedHours (5 * q) (p + 10)) := by
  have hle := (isSize_kept hq hq0).le_kept_add (p := p) (kept_size_lt hq) hp
  have hsum : (p + 10) * 2 ^ 58 + kept (5 * q * hundredth) - 10 * 2 ^ 58 =
      p * 2 ^ 58 + kept (5 * q * hundredth) := by omega
  rwa [computedHours, hsum]

theorem middle_le_of_size {p q : Nat} (hq : 5 * q < 2 ^ 32) (hlarge : 260 * p ≤ 5 * q)
    (hp0 : 0 < p) (hp : p ≤ 10) :
    (q - 10 * p) * 2 ^ 58 ≤ kept (10 * computedHours (5 * q) (10 - p)) := by
  have hge : 5 * p * 2 ^ 58 ≤ kept (5 * q * hundredth) := by
    have hnear := Decimal.kept_near (n := 5 * q * hundredth) (k := 32) (by rw [hundredth]; omega)
    rw [hundredth] at *
    linarith [hnear.2]
  have hle := (isSize_kept hq (by omega)).le_kept_sub (kept_size_lt hq) hge hp0 (by omega)
  have hdiff : (10 - p) * 2 ^ 58 + kept (5 * q * hundredth) - 10 * 2 ^ 58 =
      kept (5 * q * hundredth) - p * 2 ^ 58 := by omega
  rwa [computedHours, hdiff]

/-- In a middle between two tenths, the estimate is not too low if the size is large enough for what
is taken from it. -/
theorem hundredths_le_of_middle {n p : Nat} (hn : n < 2 ^ 32) (hp : p < 2 ^ 32)
    (hmid : hundredths n p % 10 = 5) (hfar : 10 ≤ p ∨ 260 * (10 - p) ≤ n) :
    hundredths n p * 2 ^ 59 ≤ 10 * kept (10 * computedHours n p) := by
  obtain ⟨z, hz⟩ : ∃ z, z = hundredths n p := ⟨_, rfl⟩
  rw [← hz] at hmid ⊢
  rw [hundredths] at hz
  obtain ⟨q, rfl⟩ : ∃ q, n = 5 * q := ⟨n / 5, by omega⟩
  by_cases hten : 10 ≤ p
  · obtain ⟨k, rfl⟩ := Nat.exists_eq_add_of_le' hten
    have hvalue : z = 50 * k + 5 * q := by omega
    have hle := middle_le_of_paths (p := k) hn (by omega) (by omega)
    rw [hvalue]
    linarith
  · obtain ⟨k, rfl, hk, hk0⟩ : ∃ k, p = 10 - k ∧ k ≤ 10 ∧ 0 < k := ⟨10 - p, by omega⟩
    have hvalue : z = 5 * (q - 10 * k) := by omega
    have hle := middle_le_of_size hn (by omega) hk0 hk
    rw [hvalue]
    linarith

/-! ### The estimate -/

/-- The exact estimate in tenths of an hour, rounded; a half goes up. -/
def tenths (lines paths : Nat) : Int :=
  round (10 * max 0 (((paths : ℚ) - 10) / 2 + max 0 ((lines : ℚ) - 50) / 100))

/-- The numbers of lines for which the estimate is a tenth too low, by the number of paths. -/
def shortAt : Nat → List Nat
  | 0 => [555, 605, 655, 705, 895, 1665, 1715]
  | 1 => [505, 555, 605, 655, 895, 1665, 1715]
  | 2 => [455, 505, 555, 605, 895, 1665, 1715]
  | 3 => [415, 455, 505, 555, 895, 1665]
  | 4 => [365, 415, 455, 505, 895]
  | 5 => [315, 365, 455, 895]
  | 6 => [255, 265, 315]
  | 7 => [255, 265]
  | 8 => [255]
  | 9 => [255]
  | _ => []

theorem tenths_eq (l p : Nat) : tenths l p = ((hundredths (l - 50) p + 5) / 10 : Nat) := by
  have hsize : max 0 ((l : ℚ) - 50) = (l - 50 : Nat) := by
    obtain hl | hl := Nat.le_total 50 l
    · rw [Nat.cast_sub hl, max_eq_right]
      · norm_num
      · exact sub_nonneg.mpr (by exact_mod_cast hl)
    · rw [Nat.sub_eq_zero_of_le hl, max_eq_left]
      · norm_num
      · exact sub_nonpos.mpr (by exact_mod_cast hl)
  have hexact (n : Nat) :
      10 * max 0 (((p : ℚ) - 10) / 2 + n / 100) = (hundredths n p : ℚ) / 10 := by
    obtain h | h := Nat.le_total 500 (50 * p + n)
    · have hsum : hundredths n p + 500 = 50 * p + n := by
        rw [hundredths]
        omega
      have hcast : (hundredths n p : ℚ) + 500 = 50 * p + n := by exact_mod_cast hsum
      have hpos : (0 : ℚ) ≤ hundredths n p := Nat.cast_nonneg _
      rw [max_eq_right (by linarith)]
      linarith
    · have hzero : hundredths n p = 0 := by
        rw [hundredths]
        omega
      have hcast : (50 * p + n : ℚ) ≤ 500 := by exact_mod_cast h
      rw [hzero, max_eq_left (by linarith)]
      norm_num
  have hhalf (z : Nat) : (z : ℚ) / 10 + 1 / 2 = (z + 5 : Nat) / (10 : Nat) := by
    push_cast
    ring
  rw [tenths, hsize, hexact, round_eq, hhalf, Rat.floor_natCast_div_natCast]
  rfl

/-- Where the estimate is too low, the exact one lies `j` tenths and a half above zero. -/
theorem exists_of_mem_shortAt {l p : Nat} (h : l ∈ shortAt p) :
    ∃ k < 11, ∃ j < 21 * k, p = 10 - k ∧ l = 50 * k + 10 * j + 55 := by
  have hsmall : ∀ p < 10, ∀ l ∈ shortAt p, (l - (50 * (10 - p) + 55)) / 10 < 21 * (10 - p) ∧
      l = 50 * (10 - p) + 10 * ((l - (50 * (10 - p) + 55)) / 10) + 55 := by decide
  by_cases hp : p < 10
  · obtain ⟨hj, hl⟩ := hsmall p hp l h
    exact ⟨10 - p, by omega, _, hj, by omega, hl⟩
  · obtain ⟨k, rfl⟩ := Nat.exists_eq_add_of_le (Nat.not_lt.mp hp)
    rw [Nat.add_comm] at h
    cases h

/-- Close to what is taken from it, the size decides by its last digits. -/
theorem computedTenths_of_middle : ∀ k < 11, ∀ j < 21 * k,
    computedTenths (50 * k + 10 * j + 5) (10 - k) +
      (if 50 * k + 10 * j + 55 ∈ shortAt (10 - k) then 1 else 0) = j + 1 := by
  decide +kernel

theorem computedTenths_eq {l p : Nat} (hl : l < 2 ^ 32) (hp : p < 2 ^ 32) :
    computedTenths (l - 50) p + (if l ∈ shortAt p then 1 else 0) =
      (hundredths (l - 50) p + 5) / 10 := by
  split
  · rename_i hshort
    obtain ⟨k, hk, j, hj, rfl, hvalue⟩ := exists_of_mem_shortAt hshort
    have hbeyond : l - 50 = 50 * k + 10 * j + 5 := by omega
    have hmiddle := computedTenths_of_middle k hk j hj
    have hexact : hundredths (l - 50) (10 - k) = 10 * j + 5 := by
      rw [hundredths]
      omega
    rw [← hvalue, ← hbeyond, if_pos hshort] at hmiddle
    rw [hmiddle, hexact]
    omega
  · rename_i hnone
    obtain heq | ⟨hmid, hlow, hless⟩ := computedTenths_eq_or (n := l - 50) (by omega) hp
    · rwa [Nat.add_zero]
    · by_cases hfar : 10 ≤ p ∨ 260 * (10 - p) ≤ l - 50
      · have hle := hundredths_le_of_middle (by omega) hp hmid hfar
        omega
      -- Close to what is taken from it, the size is in reach of the table.
      · obtain ⟨k, rfl, hk⟩ : ∃ k, p = 10 - k ∧ k ≤ 10 := ⟨10 - p, by omega⟩
        rw [hundredths] at hmid hless
        obtain ⟨j, hj⟩ : ∃ j, l = 50 * k + 10 * j + 55 := ⟨(l - 55) / 10 - 5 * k, by omega⟩
        have hbeyond : l - 50 = 50 * k + 10 * j + 5 := by omega
        have hmiddle := computedTenths_of_middle k (by omega) j (by omega)
        rw [← hj, ← hbeyond, if_neg hnone] at hmiddle
        omega

theorem nearest_ne_of_mem_shortAt {l p : Nat} (h : l ∈ shortAt p) :
    nearest (computedTenths (l - 50) p) (-1) ≠ nearest (computedTenths (l - 50) p + 1) (-1) := by
  have hall : ∀ p < 10, ∀ l ∈ shortAt p,
      nearest (computedTenths (l - 50) p) (-1) ≠ nearest (computedTenths (l - 50) p + 1) (-1) := by
    decide +kernel
  obtain ⟨k, hk, j, hj, rfl, hvalue⟩ := exists_of_mem_shortAt h
  exact hall (10 - k) (by omega) l h

/-- The estimate is the exact one to one decimal place, a half going up, but for the pairs of the
table. There the exact estimate lies in the middle between two tenths, and the lower is reported. -/
theorem debt_eq_exact_iff (lines paths : UInt64) (hlines : lines.toNat < 2 ^ 32)
    (hpaths : paths.toNat < 2 ^ 32) :
    (debt lines paths = nearest (tenths lines.toNat paths.toNat).toNat (-1) ↔
      lines.toNat ∉ shortAt paths.toNat) ∧
    (lines.toNat ∈ shortAt paths.toNat →
      debt lines paths = nearest ((tenths lines.toNat paths.toNat).toNat - 1) (-1)) := by
  have hdebt := debt_eq_nearest_computedTenths hlines hpaths
  have htenths := computedTenths_eq hlines hpaths
  rw [tenths_eq, Int.toNat_natCast, hdebt]
  generalize lines.toNat = l at *
  generalize paths.toNat = p at *
  split at htenths
  · rename_i hshort
    rw [← htenths, Nat.add_sub_cancel]
    exact ⟨iff_of_false (nearest_ne_of_mem_shortAt hshort) (not_not.mpr hshort), fun _ => rfl⟩
  · rename_i hnone
    rw [← htenths, Nat.add_zero]
    exact ⟨iff_of_true rfl hnone, fun hshort => absurd hshort hnone⟩

theorem debt_eq_exact_iff_middle :
    (505 : UInt64).toNat < 2 ^ 32 ∧ (1 : UInt64).toNat < 2 ^ 32 ∧ tenths 505 1 = 1 ∧
      debt 505 1 = nearest 0 (-1) ∧ debt 505 1 ≠ nearest 1 (-1) ∧
      tenths 506 1 = 1 ∧ debt 506 1 = nearest 1 (-1) := by
  have hmid : tenths 505 1 = 1 := by
    rw [tenths_eq]
    rfl
  have habove : tenths 506 1 = 1 := by
    rw [tenths_eq]
    rfl
  obtain ⟨hiff, hshort⟩ := debt_eq_exact_iff 505 1 (by decide) (by decide)
  obtain ⟨hright, -⟩ := debt_eq_exact_iff 506 1 (by decide) (by decide)
  change (_ = nearest (tenths 505 1).toNat _ ↔ _) at hiff
  change _ → _ = nearest ((tenths 505 1).toNat - 1) _ at hshort
  change (_ = nearest (tenths 506 1).toNat _ ↔ _) at hright
  rw [hmid] at hiff hshort
  rw [habove] at hright
  exact ⟨by decide, by decide, hmid, hshort (by decide), fun heq => hiff.mp heq (by decide),
    habove, hright.mpr (by decide)⟩

end CodeReview.Metrics
