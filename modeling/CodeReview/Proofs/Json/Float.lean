import CodeReview.Proofs.Decimal.Shortest
import CodeReview.Proofs.Json.Printer

/-!
Floats as JSON numbers. Every finite float is written as a numeral, and the value of the numeral is
a number again when the float is far from the largest ones.
-/

namespace CodeReview.Json

open Decimal (Scaled Small digitsOf)

namespace Numeral

/-! ### Numerals of decimals -/

/-- The numeral of a decimal, by the places of its first and its last digit. -/
def ofScaled (negative : Bool) (d : Scaled) : Numeral :=
  let ds := digitBytes d.digits
  if Decimal.leastPlain ≤ d.lead ∧ d.lead < Decimal.plainBelow then
    if 0 ≤ d.exponent then
      ⟨negative, ds ++ List.replicate d.exponent.toNat (byte '0'), some [byte '0'], none⟩
    else if 0 ≤ d.lead then
      ⟨negative, ds.take (d.lead.toNat + 1), some (ds.drop (d.lead.toNat + 1)), none⟩
    else
      ⟨negative, [byte '0'], some (List.replicate ((-d.lead).toNat - 1) (byte '0') ++ ds), none⟩
  else
    ⟨negative, ds.take 1, if ds.length = 1 then none else some (ds.drop 1),
      some (decide (d.lead < 0), digitBytes d.lead.natAbs)⟩

theorem layout_eq (d : Scaled) :
    d.layout =
      if Decimal.leastPlain ≤ d.lead ∧ d.lead < Decimal.plainBelow then
        if 0 ≤ d.exponent then
          digitsOf d.digits ++ Decimal.zeros d.exponent.toNat ++ ['.', '0']
        else if 0 ≤ d.lead then
          (digitsOf d.digits).take (d.lead.toNat + 1) ++
            '.' :: (digitsOf d.digits).drop (d.lead.toNat + 1)
        else
          '0' :: '.' :: Decimal.zeros ((-d.lead).toNat - 1) ++ digitsOf d.digits
      else
        (if (digitsOf d.digits).length = 1 then digitsOf d.digits
          else (digitsOf d.digits).take 1 ++ '.' :: (digitsOf d.digits).drop 1) ++
          'e' :: (if d.lead < 0 then '-' else '+') :: digitsOf d.lead.natAbs := by
  rw [Scaled.layout, Scaled.lead]

theorem negative_ofScaled (negative : Bool) (d : Scaled) :
    (ofScaled negative d).negative = negative := by
  rw [ofScaled]
  split
  · split
    · rfl
    · split <;> rfl
  · rfl

theorem ascii_digitsOf (n : Nat) : ∀ c ∈ digitsOf n, c.toNat < 128 :=
  fun _ hc => lt_of_isDigit (Nat.isDigit_of_mem_toDigits (by decide) (by decide) hc)

theorem ascii_zeros (n : Nat) : ∀ c ∈ Decimal.zeros n, c.toNat < 128 := by
  intro c hc
  rw [List.eq_of_mem_replicate hc]
  decide

theorem ascii_layout (d : Scaled) : ∀ c ∈ d.layout, c.toNat < 128 := by
  have hdigits := ascii_digitsOf d.digits
  have htake (k : Nat) : ∀ c ∈ (digitsOf d.digits).take k, c.toNat < 128 :=
    fun c hc => hdigits c (List.mem_of_mem_take hc)
  have hdrop (k : Nat) : ∀ c ∈ (digitsOf d.digits).drop k, c.toNat < 128 :=
    fun c hc => hdigits c (List.mem_of_mem_drop hc)
  rw [layout_eq]
  split
  · split
    · simp only [List.forall_mem_append, List.forall_mem_cons]
      exact ⟨⟨hdigits, ascii_zeros _⟩, by decide, by decide, nofun⟩
    · split <;> simp only [List.forall_mem_append, List.forall_mem_cons]
      · exact ⟨htake _, by decide, hdrop _⟩
      · exact ⟨⟨by decide, by decide, ascii_zeros _⟩, hdigits⟩
  · simp only [List.forall_mem_append, List.forall_mem_cons]
    refine ⟨?_, by decide, by split <;> decide, ascii_digitsOf _⟩
    split
    · exact hdigits
    · simp only [List.forall_mem_append, List.forall_mem_cons]
      exact ⟨htake _, by decide, hdrop _⟩

theorem exponentText_some (negative : Bool) (whole : Bytes) (fraction : Option Bytes) (e : Int) :
    exponentText ⟨negative, whole, fraction, some (decide (e < 0), digitBytes e.natAbs)⟩ =
      byte 'e' :: byte (if e < 0 then '-' else '+') :: digitBytes e.natAbs := by
  by_cases he : e < 0
  · rw [if_pos he, decide_eq_true he]
    rfl
  · rw [if_neg he, decide_eq_false he]
    rfl

/-- The layout of a decimal is the text of its numeral. -/
theorem bytes_layout (negative : Bool) (d : Scaled) :
    Text.bytes (String.ofList d.layout) = (ofScaled negative d).text := by
  have hlength : (digitBytes d.digits).length = (digitsOf d.digits).length := List.length_map ..
  rw [Text.bytes_ascii (ascii_layout d), layout_eq, ofScaled, hlength]
  by_cases hplain : Decimal.leastPlain ≤ d.lead ∧ d.lead < Decimal.plainBelow
  · rw [if_pos hplain, if_pos hplain]
    by_cases hexponent : 0 ≤ d.exponent
    · rw [if_pos hexponent, if_pos hexponent, List.map_append, List.map_append, Decimal.zeros,
        List.map_replicate]
      rfl
    · rw [if_neg hexponent, if_neg hexponent]
      by_cases hlead : 0 ≤ d.lead
      · rw [if_pos hlead, if_pos hlead, List.map_append, List.map_cons, List.map_take,
          List.map_drop]
        exact congrArg _ (List.append_nil _).symm
      · rw [if_neg hlead, if_neg hlead, List.map_append, List.map_cons, List.map_cons,
          Decimal.zeros, List.map_replicate]
        exact congrArg (byte '0' :: ·) (List.append_nil _).symm
  · rw [if_neg hplain, if_neg hplain, List.map_append, List.map_cons, List.map_cons]
    rw [text, exponentText_some]
    by_cases hone : (digitsOf d.digits).length = 1
    · have htake : (digitBytes d.digits).take 1 = digitBytes d.digits :=
        List.take_of_length_le (by omega)
      rw [if_pos hone, if_pos hone, htake]
      rfl
    · rw [if_neg hone, if_neg hone, List.map_append, List.map_cons, List.map_take, List.map_drop,
        List.append_assoc]
      rfl

/-! ### Valid numerals -/

theorem isDigit_of_mem_zeros {k : Nat} : ∀ b ∈ List.replicate k (byte '0'), isDigit b = true := by
  intro b hb
  rw [List.eq_of_mem_replicate hb]
  decide

theorem digits_replicate_append {k : Nat} {ds : Bytes} (hds : Digits ds) :
    Digits (List.replicate k (byte '0') ++ ds) where
  some := by simp [hds.some]
  all := List.forall_mem_append.mpr ⟨isDigit_of_mem_zeros, hds.all⟩

theorem digits_append_replicate {k : Nat} {ds : Bytes} (hds : Digits ds) :
    Digits (ds ++ List.replicate k (byte '0')) where
  some := by simp [hds.some]
  all := List.forall_mem_append.mpr ⟨hds.all, isDigit_of_mem_zeros⟩

theorem digits_take {k : Nat} {ds : Bytes} (hds : Digits ds) : Digits (ds.take (k + 1)) where
  some := by simp [hds.some]
  all := fun b hb => hds.all b (List.mem_of_mem_take hb)

theorem digits_drop {k : Nat} {ds : Bytes} (hds : Digits ds) (hk : k < ds.length) :
    Digits (ds.drop k) where
  some := by simp; omega
  all := fun b hb => hds.all b (List.mem_of_mem_drop hb)

theorem digits_zero : Digits [byte '0'] where
  some := nofun
  all := by decide +kernel

theorem head_digitBytes {n : Nat} (hn : n ≠ 0) : (digitBytes n).head? ≠ some (byte '0') := by
  intro h
  have hzero := wholeValue_digitBytes n
  rw [digitBytes_zero h] at hzero
  exact hn hzero.symm

/-- A zero at the front of the first digits stands alone there. -/
theorem take_digitBytes_zero {n k : Nat}
    (h : ((digitBytes n).take (k + 1)).head? = some (byte '0')) :
    (digitBytes n).take (k + 1) = [byte '0'] := by
  rw [List.head?_take, if_neg (Nat.succ_ne_zero k)] at h
  rw [digitBytes_zero h, List.take_succ_cons, List.take_nil]

/-- A decimal is written as JSON wants it. -/
theorem valid_ofScaled {negative : Bool} {d : Scaled} (hd : d.digits ≠ 0 ∨ d.exponent ≤ 0) :
    (ofScaled negative d).Valid := by
  have hdigits := digits_digitBytes d.digits
  have hlength : (digitBytes d.digits).length = (digitsOf d.digits).length := List.length_map ..
  have hlead : d.lead = d.exponent + (digitsOf d.digits).length - 1 := rfl
  rw [ofScaled]
  -- Zeros after all digits, a point among the digits, zeros before all digits, an exponent.
  split
  · split
    · refine ⟨digits_append_replicate hdigits, ?_, ?_, nofun⟩
      · intro hhead
        rw [List.head?_append, Option.or_of_isSome (by simpa using hdigits.some)] at hhead
        have hnone : d.exponent.toNat = 0 := by
          have := hd.resolve_left fun h => head_digitBytes h hhead
          omega
        rw [hnone, digitBytes_zero hhead]
        rfl
      · rintro _ ⟨⟩
        exact digits_zero
    · split
      · refine ⟨digits_take hdigits, take_digitBytes_zero, ?_, nofun⟩
        rintro _ ⟨⟩
        exact digits_drop hdigits (by omega)
      · refine ⟨digits_zero, fun _ => rfl, ?_, nofun⟩
        rintro _ ⟨⟩
        exact digits_replicate_append hdigits
  · refine ⟨digits_take hdigits, take_digitBytes_zero, ?_, ?_⟩
    · intro ds hds
      split at hds
      · cases hds
      · cases hds
        have := List.length_pos_iff.mpr hdigits.some
        exact digits_drop hdigits (by omega)
    · rintro sign _ ⟨⟩
      exact digits_digitBytes _

/-! ### Values -/

theorem exponentValue_go {ds : Bytes} {n : Nat} (h : wholeValue n ds ≤ largestExponent) :
    exponentValue.go n ds = .ok (wholeValue n ds) := by
  induction ds generalizing n with
  | nil => rfl
  | cons b ds ih =>
      have hfits : n * 10 + digitValue b ≤ largestExponent :=
        Nat.le_trans (le_wholeValue ds _) h
      rw [exponentValue.go, if_neg (Nat.not_lt.mpr hfits), ih h]
      rfl

theorem exponentValue_digitBytes {n : Nat} (h : n ≤ largestExponent) :
    exponentValue (digitBytes n) = .ok n := by
  have hvalue := wholeValue_digitBytes n
  rw [exponentValue, exponentValue_go (by omega), hvalue]

theorem exponent_takeWhole_le (ds : Bytes) (m : Significand × Bool) :
    (ds.foldl Significand.takeWhole m).1.exponent ≤ m.1.exponent + ds.length := by
  induction ds generalizing m with
  | nil => exact Int.le_of_eq (Int.add_zero _).symm
  | cons b ds ih =>
      have hstep : (Significand.takeWhole m b).1.exponent ≤ m.1.exponent + 1 := by
        rw [Significand.takeWhole]
        split
        · exact Int.le_refl _
        · exact Int.le_add_of_nonneg_right (by decide)
      have := ih (Significand.takeWhole m b)
      rw [List.foldl_cons, List.length_cons]
      omega

theorem exponent_takeFraction_le (ds : Bytes) (m : Significand × Bool) :
    (ds.foldl Significand.takeFraction m).1.exponent ≤ m.1.exponent := by
  induction ds generalizing m with
  | nil => exact Int.le_refl _
  | cons b ds ih =>
      have hstep : (Significand.takeFraction m b).1.exponent ≤ m.1.exponent := by
        rw [Significand.takeFraction]
        split
        · exact Int.le_refl _
        · exact Int.sub_le_self _ (by decide)
      exact Int.le_trans (ih _) hstep

theorem exponent_significand_le (n : Numeral) : n.significand.exponent ≤ n.whole.length := by
  have hwhole := exponent_takeWhole_le n.whole (⟨0, 0⟩, false)
  have hfraction := exponent_takeFraction_le (n.fraction.getD [])
    ((n.whole.foldl Significand.takeWhole (⟨0, 0⟩, false)).1, false)
  rw [significand]
  dsimp only at hwhole hfraction ⊢
  omega

theorem small_powerOfTen {n : Nat} (h : n ≤ 200) : Small 700 (powerOfTen n) := by
  have hall : ∀ n : Fin 201, Small 700 (powerOfTen n) := by decide +kernel
  exact hall ⟨n, Nat.lt_succ_of_le h⟩

/-- Products with powers of ten that are not too large are floats. -/
theorem exists_scaled {x : Float} {e : Int} (hx : Small 65 x) (he : e ≤ 200) :
    ∃ y, scaled? x e = some y := by
  rw [scaled?]
  split
  · split
    · have hproduct := hx.mul (small_powerOfTen (n := e.toNat) (by omega)) (by decide)
      exact ⟨_, if_neg (by simp [hproduct.isInf])⟩
    · exact ⟨_, rfl⟩
  · split
    · exact ⟨_, rfl⟩
    · rw [if_neg (by omega)]
      split <;> exact ⟨_, rfl⟩

/-- A numeral with few digits before the point and a small exponent has a value. -/
theorem exists_value {n : Numeral} {e : Nat} (hsize : n.whole.length + e ≤ 200)
    (he : ∀ ds, n.exponent = some (false, ds) → exponentValue ds = .ok e) :
    ∃ v, n.value = .ok v := by
  have hexponent := exponent_significand_le n
  have hsmall : Small 65 n.significand.digits.toUInt64.toFloat := Decimal.small_toFloat
  rw [value]
  dsimp only
  -- A whole number has a value of its own. Of the others only the power of ten can be too large.
  split
  · split
    · exact ⟨_, rfl⟩
    · split <;> exact ⟨_, rfl⟩
  · cases hn : n.exponent with
    | none =>
        obtain ⟨y, hy⟩ := exists_scaled (e := n.significand.exponent + 0) hsmall (by omega)
        simp only [hy]
        exact ⟨_, rfl⟩
    | some written =>
        obtain ⟨sign, ds⟩ := written
        cases sign with
        | false =>
            obtain ⟨y, hy⟩ := exists_scaled (e := n.significand.exponent + e) hsmall (by omega)
            simp only [he ds hn, Except.map, Int.ofNat_eq_natCast, hy]
            exact ⟨_, rfl⟩
        | true =>
            cases hds : exponentValue ds with
            | error left =>
                simp only [hds, bind, Except.bind, Except.map]
                exact ⟨_, rfl⟩
            | ok k =>
                obtain ⟨y, hy⟩ := exists_scaled (e := n.significand.exponent + -k) hsmall (by omega)
                simp only [hds, bind, Except.bind, pure, Except.pure, Except.map, hy]
                exact ⟨_, rfl⟩

theorem exists_value_ofScaled {negative : Bool} {d : Scaled} (h : d.lead ≤ 190) :
    ∃ v, (ofScaled negative d).value = .ok v := by
  have hlength : (digitBytes d.digits).length = (digitsOf d.digits).length := List.length_map ..
  have hlead : d.lead = d.exponent + (digitsOf d.digits).length - 1 := rfl
  have hbelow : Decimal.plainBelow = 16 := rfl
  rw [ofScaled]
  split
  · split
    · refine exists_value (e := 0) ?_ nofun
      rw [List.length_append, List.length_replicate, hlength]
      omega
    · split
      · refine exists_value (e := 0) ?_ nofun
        rw [List.length_take]
        omega
      · exact exists_value (e := 0) (show 1 + 0 ≤ 200 by decide) nofun
  · refine exists_value (e := d.lead.toNat) ?_ ?_
    · rw [List.length_take]
      omega
    · intro ds hds
      injection hds with hds
      injection hds with hsign hds
      have hpos := of_decide_eq_false hsign
      rw [← hds, show d.lead.natAbs = d.lead.toNat by omega]
      have hlargest : 190 ≤ largestExponent := by decide
      exact exponentValue_digitBytes (by omega)

/-! ### Numerals of floats -/

/-- The numeral of a finite float. -/
def ofFloat (x : Float) : Numeral :=
  ofScaled (Decimal.isNegative x) (if x == 0 then ⟨0, 0⟩ else Decimal.shortest x.abs)

theorem bytes_display (x : Float) : Text.bytes (Decimal.display x) = (ofFloat x).signed := by
  have hsign : Text.bytes "-" = [byte '-'] := Text.bytes_eq _
  have hnegative : (ofFloat x).negative = Decimal.isNegative x := negative_ofScaled _ _
  have hsize : Text.bytes (if x == 0 then "0.0"
      else String.ofList (Decimal.shortest x.abs).layout) = (ofFloat x).text := by
    rw [ofFloat, ← bytes_layout]
    split <;> rfl
  rw [Decimal.display, signed, hnegative]
  split
  · rw [Text.bytes_append, hsign, hsize]
    rfl
  · exact hsize

theorem valid_ofFloat {x : Float} (h : x.isFinite = true) : (ofFloat x).Valid := by
  apply valid_ofScaled
  split
  · exact .inr (Int.le_refl 0)
  · rename_i h0
    obtain ⟨s, m, e, hm, hx⟩ := Decimal.unpack_of_isFinite h (Bool.eq_false_iff.mpr h0)
    exact Decimal.proper_shortest (Decimal.unpack_abs hx)

theorem exists_value_ofFloat {x : Float} (h : Small 90 x) : ∃ v, (ofFloat x).value = .ok v := by
  apply exists_value_ofScaled
  split
  · decide
  · rename_i h0
    obtain ⟨s, m, e, hm, hx⟩ :=
      Decimal.unpack_of_isFinite h.isFinite (Bool.eq_false_iff.mpr h0)
    rw [Decimal.Small, hx] at h
    cases h with
    | finite hsize =>
        have := Decimal.lead_shortest_le (Decimal.unpack_abs hx) hsize
        omega

end Numeral

/-! ### Reading -/

theorem bytes_render_real {x : Float} (h : x.isFinite = true) :
    Text.bytes (Number.real x).render = (Numeral.ofFloat x).signed := by
  rw [Number.render, if_pos h, Numeral.bytes_display]

theorem bytes_render_of_not_isFinite {x : Float} (h : x.isFinite = false) :
    Text.bytes (Number.real x).render = Text.bytes "null" := by
  rw [Number.render, if_neg (by simp [h])]

/-- Every number is written in the syntax, as a numeral or as null. -/
theorem scalarForm_render : ∀ n : Number, ScalarForm (Text.bytes n.render)
  | .integer i => by
      rw [Numeral.bytes_render_integer]
      exact scalarForm_signed (Numeral.valid_ofInt i)
  | .real x => by
      cases hfinite : x.isFinite with
      | true =>
          rw [bytes_render_real hfinite]
          exact scalarForm_signed (Numeral.valid_ofFloat hfinite)
      | false =>
          rw [bytes_render_of_not_isFinite hfinite]
          exact .null

theorem starts_render (n : Number) : Starts (Text.bytes n.render) :=
  starts_scalarForm (scalarForm_render n)

/-- The text that is written for the float is read as the float. -/
def Survives (x : Float) : Prop :=
  readText .value (compact (.ofFloat x)) = .ok (.ofFloat x)

theorem compact_ofFloat (x : Float) : compact (.ofFloat x) = (Number.real x).render := by
  rw [compact, Json.ofFloat, write, String.empty_append]

theorem survives_of_value {x : Float} (hfinite : x.isFinite = true)
    (h : (Numeral.ofFloat x).value = .ok (.real x)) : Survives x := by
  apply readText_of_takes (r := .value)
  rw [compact_ofFloat, bytes_render_real hfinite]
  exact Reader.takes_number (Numeral.valid_ofFloat hfinite) h maxDepth

/-- What is not finite is written as null, and is not read back. -/
theorem Survives.isFinite {x : Float} (h : Survives x) : x.isFinite = true := by
  by_contra hinfinite
  have hnull := Reader.takes_null maxDepth
  rw [← bytes_render_of_not_isFinite (Bool.eq_false_iff.mpr hinfinite)] at hnull
  have hread := readText_of_takes (r := .value) hnull
  rw [Survives, compact_ofFloat, hread] at h
  cases h

theorem survives_half : Survives 0.5 :=
  survives_of_value (by decide +kernel) rfl

/-- What is read where a number was written. -/
def Number.reread (n : Number) : Json :=
  match readText .value n.render with
  | .ok v => v
  | .error _ => .null

/-- The text of the number is read as one value, wherever it stands. -/
structure Number.Legible (n : Number) : Prop where
  takes : ∀ depth, Takes (Reader.value depth) (Text.bytes n.render) n.reread
  starts : Starts (Text.bytes n.render)

namespace Number

theorem reread_eq {n : Number} {v : Json}
    (h : Takes (Reader.value maxDepth) (Text.bytes n.render) v) : n.reread = v := by
  rw [reread, readText_of_takes (r := .value) h]

theorem legible_of_takes {n : Number} {v : Json}
    (h : ∀ depth, Takes (Reader.value depth) (Text.bytes n.render) v)
    (hstarts : Starts (Text.bytes n.render)) : n.Legible where
  takes := by
    rw [reread_eq (h maxDepth)]
    exact h
  starts := hstarts

theorem readsBack {layout : Layout} (h : layout.IsBlank) : ReadsBack layout Legible reread where
  blank := h
  number := fun _ hn depth => ⟨hn.takes depth, hn.starts⟩

/-- Integers that fit into 64 bits are read back. -/
theorem takes_integer {i : Int} (hlow : -2 ^ 63 ≤ i) (hhigh : i < 2 ^ 64) (depth : Nat) :
    Takes (Reader.value depth) (Text.bytes (integer i).render) (.number (.integer i)) := by
  rw [Numeral.bytes_render_integer]
  exact Reader.takes_number (Numeral.valid_ofInt i) (Numeral.value_ofInt hlow hhigh) depth

theorem legible_integer {i : Int} (hlow : -2 ^ 63 ≤ i) (hhigh : i < 2 ^ 64) :
    (integer i).Legible :=
  legible_of_takes (takes_integer hlow hhigh) (starts_render _)

theorem reread_integer {i : Int} (hlow : -2 ^ 63 ≤ i) (hhigh : i < 2 ^ 64) :
    (integer i).reread = .number (.integer i) :=
  reread_eq (takes_integer hlow hhigh maxDepth)

/-- A float that is read back when its text is the whole document is read back everywhere. -/
theorem takes_real {x : Float} (h : Survives x) (depth : Nat) :
    Takes (Reader.value depth) (Text.bytes (real x).render) (.ofFloat x) := by
  have hvalid := Numeral.valid_ofFloat h.isFinite
  have hbytes := bytes_render_real h.isFinite
  rw [Survives, compact_ofFloat] at h
  obtain ⟨a, ha, hx⟩ := value_of_readText hvalid hbytes h
  rw [hbytes, hx]
  exact Reader.takes_number hvalid ha depth

theorem legible_real {x : Float} (h : Survives x) : (real x).Legible :=
  legible_of_takes (takes_real h) (starts_render _)

theorem reread_real {x : Float} (h : Survives x) : (real x).reread = .ofFloat x :=
  reread_eq (takes_real h maxDepth)

/-- The text of a float that is far from the largest ones is read as some number. -/
theorem legible_small {x : Float} (h : Small 90 x) : (real x).Legible := by
  obtain ⟨a, ha⟩ := Numeral.exists_value_ofFloat h
  have htakes (depth : Nat) :
      Takes (Reader.value depth) (Text.bytes (real x).render) (.number a) := by
    rw [bytes_render_real h.isFinite]
    exact Reader.takes_number (Numeral.valid_ofFloat h.isFinite) ha depth
  exact legible_of_takes htakes (starts_render _)

end Number

namespace Number

/-- A number that is legible and does not change when it is read. -/
structure Kept (n : Number) : Prop where
  legible : n.Legible
  same : n.reread = .number n

theorem kept_integer {i : Int} (hlow : -2 ^ 63 ≤ i) (hhigh : i < 2 ^ 64) : (integer i).Kept :=
  ⟨legible_integer hlow hhigh, reread_integer hlow hhigh⟩

theorem kept_word (n : Nat) (h : n < 2 ^ 64) : (integer n).Kept :=
  kept_integer (by omega) (by omega)

theorem kept_real {x : Float} (h : Survives x) : (real x).Kept :=
  ⟨legible_real h, reread_real h⟩

/-- A number that is read back is not written as null. -/
theorem Kept.render_ne_null {n : Number} (h : n.Kept) :
    Text.bytes n.render ≠ Text.bytes "null" := by
  intro hnull
  have hnumber := h.legible.takes 0 [] [] spaces_nil ends_nil
  rw [h.same, hnull] at hnumber
  exact Json.noConfusion (hnumber.unique (Reader.takes_null 0 [] [] spaces_nil ends_nil)).1

end Number

end CodeReview.Json
