import CodeReview.Json.Numeral
import CodeReview.Proofs.Json.Scan
import Mathlib

/-!
Numbers are scanned as they were written: the digits before the point, those after it, and the
exponent, up to the first byte that cannot belong to a number.
-/

namespace CodeReview.Json

/-- The bytes do not go on with a digit. -/
def NoDigit (rest : Bytes) : Prop :=
  ∀ b, rest.head? = some b → isDigit b = false

/-- A number that stands before the bytes is complete. -/
structure Ends (rest : Bytes) : Prop where
  noDigit : NoDigit rest
  noPoint : rest.head? ≠ some (byte '.')
  noExponent : rest.head? ≠ some (byte 'e') ∧ rest.head? ≠ some (byte 'E')

/-- One digit or more. -/
structure Digits (ds : Bytes) : Prop where
  some : ds ≠ []
  all : ∀ b ∈ ds, isDigit b = true

theorem Digits.exists_cons {ds : Bytes} (h : Digits ds) :
    ∃ b bs, isDigit b = true ∧ ds = b :: bs := by
  cases ds with
  | nil => exact absurd rfl h.some
  | cons b bs => exact ⟨b, bs, h.all b List.mem_cons_self, rfl⟩

namespace Numeral

/-- The parts are as JSON wants them: a zero before the point stands alone, and no part that is
there is without digits. -/
structure Valid (n : Numeral) : Prop where
  whole : Digits n.whole
  zero : n.whole.head? = some (byte '0') → n.whole = [byte '0']
  fraction : ∀ ds, n.fraction = some ds → Digits ds
  exponent : ∀ sign ds, n.exponent = some (sign, ds) → Digits ds

def fractionText (n : Numeral) : Bytes :=
  match n.fraction with
  | none => []
  | some ds => byte '.' :: ds

def exponentText (n : Numeral) : Bytes :=
  match n.exponent with
  | none => []
  | some (true, ds) => byte 'e' :: byte '-' :: ds
  | some (false, ds) => byte 'e' :: byte '+' :: ds

/-- The numeral as it is written, without its sign. -/
def text (n : Numeral) : Bytes :=
  n.whole ++ (n.fractionText ++ n.exponentText)

end Numeral

/-! ### Scanning -/

theorem takeWhile_digits {ds rest : Bytes} (hds : ∀ b ∈ ds, isDigit b = true)
    (hrest : NoDigit rest) :
    (ds ++ rest).takeWhile isDigit = ds := by
  rw [List.takeWhile_append_of_pos hds]
  cases rest with
  | nil => exact List.append_nil ds
  | cons b rest => rw [List.takeWhile_cons_of_neg (by simp [hrest b rfl]), List.append_nil]

theorem dropWhile_digits {ds rest : Bytes} (hds : ∀ b ∈ ds, isDigit b = true)
    (hrest : NoDigit rest) :
    (ds ++ rest).dropWhile isDigit = rest := by
  rw [List.dropWhile_append_of_pos hds]
  cases rest with
  | nil => rfl
  | cons b rest => rw [List.dropWhile_cons_of_neg (by simp [hrest b rfl])]

theorem digits_append {ds rest : Bytes} (hds : ∀ b ∈ ds, isDigit b = true)
    (hrest : NoDigit rest) :
    ∃ h, digits (ds ++ rest) = (ds, ⟨rest, h⟩) := by
  have hdrop := dropWhile_digits hds hrest
  refine ⟨by simp, ?_⟩
  rw [digits, takeWhile_digits hds hrest]
  exact congrArg (Prod.mk ds) (Subtype.ext hdrop)

theorem wholePart_append (atEnd : Cause) {ds rest : Bytes} (hds : Digits ds)
    (hzero : ds.head? = some (byte '0') → ds = [byte '0']) (hrest : NoDigit rest) :
    Yields (wholePart atEnd (ds ++ rest)) ds rest := by
  cases ds with
  | nil => exact absurd rfl hds.some
  | cons b ds =>
      have hdigit := hds.all b List.mem_cons_self
      simp only [List.cons_append]
      -- A zero must stand alone, so the part of the reader that refuses more digits is not reached.
      by_cases hb : b = byte '0'
      · subst hb
        have hnone : ds = [] := (List.cons.inj (hzero rfl)).2
        subst hnone
        refine ⟨by simp, ?_⟩
        have hstop : rest.head?.any isDigit = false := by
          cases hhead : rest.head? with
          | none => rfl
          | some c => exact hrest c hhead
        change wholePart atEnd (byte '0' :: rest) = _
        rw [wholePart, if_pos rfl, hstop]
        rfl
      · obtain ⟨h, hdigits⟩ :=
          digits_append (fun c hc => hds.all c (List.mem_cons_of_mem b hc)) hrest
        refine ⟨by simp only [List.length_append, List.length_cons]; omega, ?_⟩
        rw [wholePart, if_neg hb, if_pos hdigit]
        simp only [hdigits]

theorem fractionPart_none (atEnd : Cause) {rest : Bytes} (hrest : rest.head? ≠ some (byte '.')) :
    fractionPart atEnd rest = .ok (none, ⟨rest, Nat.le_refl _⟩) := by
  cases rest with
  | nil => rfl
  | cons b rest => rw [fractionPart, if_neg fun h => hrest (congrArg some h)]

theorem fractionPart_some (atEnd : Cause) {ds rest : Bytes} (hds : Digits ds)
    (hrest : NoDigit rest) :
    ∃ h, fractionPart atEnd (byte '.' :: (ds ++ rest)) = .ok (some ds, ⟨rest, h⟩) := by
  obtain ⟨h, hdigits⟩ := digits_append hds.all hrest
  refine ⟨Nat.le_succ_of_le h, ?_⟩
  rw [fractionPart, if_pos rfl]
  simp only [hdigits]
  cases ds with
  | nil => exact absurd rfl hds.some
  | cons b ds => rfl

theorem exponentPart_none (atEnd : Cause) {rest : Bytes}
    (hrest : rest.head? ≠ some (byte 'e') ∧ rest.head? ≠ some (byte 'E')) :
    exponentPart atEnd rest = .ok (none, ⟨rest, Nat.le_refl _⟩) := by
  cases rest with
  | nil => rfl
  | cons b rest =>
      have hb : ¬ (b = byte 'e' ∨ b = byte 'E') := by
        rintro (rfl | rfl)
        · exact hrest.1 rfl
        · exact hrest.2 rfl
      rw [exponentPart, if_neg hb]

/-- What may stand before the digits of an exponent: a minus, a plus or nothing. -/
inductive SignForm : (negative : Bool) → Bytes → Prop where
  | minus : SignForm true [byte '-']
  | plus : SignForm false [byte '+']
  | none : SignForm false []

/-- How an exponent may be written. -/
inductive ExponentForm : Option (Bool × Bytes) → Bytes → Prop where
  | none : ExponentForm none []
  | some {negative : Bool} {b : UInt8} {s : Bytes} (letter : b = byte 'e' ∨ b = byte 'E')
    (sign : SignForm negative s) (ds : Bytes) :
    ExponentForm (some (negative, ds)) (b :: (s ++ ds))

theorem exponentSign_append {negative : Bool} {s : Bytes} (h : SignForm negative s) {b : UInt8}
    (hb : isDigit b = true) (rest : Bytes) :
    ∃ hrest, exponentSign (s ++ b :: rest) = (negative, ⟨b :: rest, hrest⟩) := by
  cases h with
  | minus => exact ⟨by simp, rfl⟩
  | plus => exact ⟨by simp, rfl⟩
  | none =>
      have hminus : b ≠ byte '-' := by
        rintro rfl
        exact absurd hb (by decide)
      have hplus : b ≠ byte '+' := by
        rintro rfl
        exact absurd hb (by decide)
      refine ⟨Nat.le_refl _, ?_⟩
      change exponentSign (b :: rest) = _
      rw [exponentSign, if_neg hminus, if_neg hplus]

theorem exponentPart_some (atEnd : Cause) {b : UInt8} (letter : b = byte 'e' ∨ b = byte 'E')
    {negative : Bool} {s : Bytes} (hs : SignForm negative s) {ds rest : Bytes} (hds : Digits ds)
    (hrest : NoDigit rest) :
    ∃ h, exponentPart atEnd (b :: (s ++ (ds ++ rest))) = .ok (some (negative, ds), ⟨rest, h⟩) := by
  cases ds with
  | nil => exact absurd rfl hds.some
  | cons c ds =>
      obtain ⟨h, hdigits⟩ :=
        digits_append (fun d hd => hds.all d (List.mem_cons_of_mem c hd)) hrest
      have hc := hds.all c List.mem_cons_self
      obtain ⟨hlong, hsign⟩ := exponentSign_append hs hc (ds ++ rest)
      refine ⟨by simp at h hlong ⊢; omega, ?_⟩
      rw [exponentPart, if_pos letter]
      simp only [List.cons_append]
      split
      · rename_i heq
        rw [hsign] at heq
        cases heq
      · rename_i d after heq
        rw [hsign] at heq
        obtain ⟨rfl, rfl⟩ := List.cons.inj (show c :: (ds ++ rest) = d :: after from heq)
        simp only [hc, if_true, hdigits, hsign]

/-! ### Whole numerals -/

section Exponent

variable {exponent : Option (Bool × Bytes)} {t rest : Bytes} (h : ExponentForm exponent t)
  (hrest : Ends rest)
include h hrest

theorem noDigit_exponentForm : NoDigit (t ++ rest) := by
  cases h with
  | none => exact hrest.noDigit
  | some letter sign ds =>
      rintro b ⟨⟩
      rcases letter with rfl | rfl <;> decide

theorem exponentForm_ne_point : (t ++ rest).head? ≠ some (byte '.') := by
  cases h with
  | none => exact hrest.noPoint
  | some letter sign ds =>
      rintro ⟨⟩
      rcases letter with h | h <;> exact absurd h (by decide)

theorem exponentPart_form (atEnd : Cause)
    (hds : ∀ sign ds, exponent = some (sign, ds) → Digits ds) :
    ∃ hr, exponentPart atEnd (t ++ rest) = .ok (exponent, ⟨rest, hr⟩) := by
  cases h with
  | none => exact ⟨Nat.le_refl _, exponentPart_none atEnd hrest.noExponent⟩
  | some letter sign ds =>
      rw [List.cons_append, List.append_assoc]
      exact exponentPart_some atEnd letter sign (hds _ ds rfl) hrest.noDigit

end Exponent

namespace Numeral

theorem exponentForm_exponentText (n : Numeral) : ExponentForm n.exponent n.exponentText := by
  obtain ⟨negative, whole, fraction, exponent⟩ := n
  match exponent with
  | none => exact .none
  | some (true, ds) => exact .some (.inl rfl) .minus ds
  | some (false, ds) => exact .some (.inl rfl) .plus ds

theorem noDigit_fractionText (n : Numeral) {rest : Bytes} (hrest : NoDigit rest) :
    NoDigit (n.fractionText ++ rest) := by
  unfold fractionText
  split
  · exact hrest
  · rintro b ⟨⟩
    decide

theorem fractionPart_text (atEnd : Cause) {n : Numeral} (h : n.Valid) {rest : Bytes}
    (hrest : NoDigit rest) (hpoint : rest.head? ≠ some (byte '.')) :
    ∃ hr, fractionPart atEnd (n.fractionText ++ rest) = .ok (n.fraction, ⟨rest, hr⟩) := by
  obtain ⟨negative, whole, fraction, exponent⟩ := n
  cases fraction with
  | none => exact ⟨Nat.le_refl _, fractionPart_none atEnd hpoint⟩
  | some ds => exact fractionPart_some atEnd (h.fraction ds rfl) hrest

/-- A numeral is scanned as it was written, whatever its exponent looks like, when nothing follows
that could belong to it. -/
theorem scanNumeral_form (atEnd : Cause) {n : Numeral} (h : n.Valid) {t rest : Bytes}
    (ht : ExponentForm n.exponent t) (hrest : Ends rest) :
    Yields (scanNumeral atEnd n.negative (n.whole ++ (n.fractionText ++ (t ++ rest)))) n rest := by
  have hnext := noDigit_exponentForm ht hrest
  obtain ⟨hw, hwhole⟩ := wholePart_append atEnd h.whole h.zero (n.noDigit_fractionText hnext)
  obtain ⟨hf, hfraction⟩ := fractionPart_text atEnd h hnext (exponentForm_ne_point ht hrest)
  obtain ⟨he, hexponent⟩ := exponentPart_form ht hrest atEnd h.exponent
  refine ⟨by omega, ?_⟩
  simp only [scanNumeral, hwhole, hfraction, hexponent, bind, Except.bind]

/-- A numeral is scanned as it is written here. -/
theorem scanNumeral_text (atEnd : Cause) {n : Numeral} (h : n.Valid) {rest : Bytes}
    (hrest : Ends rest) :
    Yields (scanNumeral atEnd n.negative (n.text ++ rest)) n rest := by
  have htext : n.text ++ rest = n.whole ++ (n.fractionText ++ (n.exponentText ++ rest)) := by
    simp only [text, List.append_assoc]
  rw [htext]
  exact scanNumeral_form atEnd h n.exponentForm_exponentText hrest

end Numeral

/-- The number that a numeral writes, when it is not beyond all floats. -/
theorem scanNumber_text {n : Numeral} (h : n.Valid) {v : Number} (hv : n.value = .ok v)
    {rest : Bytes} (hrest : Ends rest) :
    Yields (scanNumber n.negative (n.text ++ rest)) v rest := by
  obtain ⟨hshort, hscan⟩ := Numeral.scanNumeral_text .endOfValue h hrest
  refine ⟨hshort, ?_⟩
  simp only [scanNumber, hscan, bind, Except.bind, hv]

/-! ### Integers -/

/-- The decimal digits of a natural number. -/
def digitBytes (n : Nat) : Bytes :=
  (Nat.toDigits 10 n).map byte

theorem isDigit_iff {b : UInt8} : isDigit b = true ↔ 48 ≤ b.toNat ∧ b.toNat ≤ 57 := by
  rw [isDigit, Bool.and_eq_true, decide_eq_true_iff, decide_eq_true_iff, UInt8.le_iff_toNat_le,
    UInt8.le_iff_toNat_le]
  rfl

theorem lt_of_isDigit {c : Char} (h : c.isDigit = true) : c.toNat < 128 :=
  Nat.lt_of_le_of_lt (Char.isDigit_iff_toNat.mp h).2 (by decide)

theorem toNat_byte {c : Char} (h : c.isDigit = true) : (byte c).toNat = c.toNat :=
  Text.toNat_toUInt8 (lt_of_isDigit h)

theorem isDigit_byte {c : Char} (h : c.isDigit = true) : isDigit (byte c) = true := by
  rw [isDigit_iff, toNat_byte h]
  exact Char.isDigit_iff_toNat.mp h

theorem digits_digitBytes (n : Nat) : Digits (digitBytes n) where
  some := by simp [digitBytes]
  all := by
    intro b hb
    obtain ⟨c, hc, rfl⟩ := List.mem_map.mp hb
    exact isDigit_byte (Nat.isDigit_of_mem_toDigits (by decide) (by decide) hc)

/-- Only zero is written with a zero at the front. -/
theorem eq_zero_of_head_toDigits {n : Nat} (h : (Nat.toDigits 10 n).head? = some '0') : n = 0 := by
  induction n using Nat.strongRecOn with
  | ind n ih =>
      rw [Nat.toDigits_eq_if (by decide)] at h
      split at h
      · simpa using h
      · rename_i hn
        rw [List.head?_append] at h
        cases hhead : (Nat.toDigits 10 (n / 10)).head? with
        | none => exact absurd (List.head?_eq_none_iff.mp hhead) Nat.toDigits_ne_nil
        | some c =>
            rw [hhead] at h
            cases h
            have := ih (n / 10) (by omega) hhead
            omega

theorem digitBytes_zero {n : Nat} (h : (digitBytes n).head? = some (byte '0')) :
    digitBytes n = [byte '0'] := by
  rw [digitBytes, List.head?_map, Option.map_eq_some_iff] at h
  obtain ⟨c, hc, hbyte⟩ := h
  have hdigit := Nat.isDigit_of_mem_toDigits (by decide) (by decide) (List.mem_of_head? hc)
  have hzero : c = '0' := by
    rw [← Char.toNat_inj, ← toNat_byte hdigit, hbyte]
    rfl
  subst hzero
  rw [eq_zero_of_head_toDigits hc]
  rfl

/-- The number that digits write. -/
def wholeValue (n : Nat) (ds : Bytes) : Nat :=
  ds.foldl (fun n b => n * 10 + digitValue b) n

theorem le_wholeValue (ds : Bytes) (n : Nat) : n ≤ wholeValue n ds := by
  induction ds generalizing n with
  | nil => exact Nat.le_refl n
  | cons b ds ih => exact Nat.le_trans (by omega) (ih (n * 10 + digitValue b))

theorem foldl_takeWhole {ds : Bytes} {n : Nat} {e : Int} (h : wholeValue n ds ≤ largestWord) :
    ds.foldl Significand.takeWhole (⟨n, e⟩, false) = (⟨wholeValue n ds, e⟩, false) := by
  induction ds generalizing n with
  | nil => rfl
  | cons b ds ih =>
      have hfits : n * 10 + digitValue b ≤ largestWord :=
        Nat.le_trans (le_wholeValue ds _) h
      have hstep : Significand.takeWhole (⟨n, e⟩, false) b =
          (⟨n * 10 + digitValue b, e⟩, false) := by
        rw [Significand.takeWhole, if_neg (by simp; omega)]
      rw [List.foldl_cons, hstep, ih h]
      rfl

theorem wholeValue_map_byte {cs : List Char} (h : ∀ c ∈ cs, c.isDigit = true) (n : Nat) :
    wholeValue n (cs.map byte) = Nat.ofDigitChars 10 cs n := by
  induction cs generalizing n with
  | nil => rfl
  | cons c cs ih =>
      have hc : digitValue (byte c) = c.toNat - '0'.toNat := by
        rw [digitValue, toNat_byte (h c List.mem_cons_self)]
        rfl
      rw [Nat.ofDigitChars_cons, ← ih fun d hd => h d (List.mem_cons_of_mem c hd), ← hc,
        Nat.mul_comm]
      rfl

theorem wholeValue_digitBytes (n : Nat) : wholeValue 0 (digitBytes n) = n := by
  rw [digitBytes,
    wholeValue_map_byte fun _ => Nat.isDigit_of_mem_toDigits (by decide) (by decide),
    Nat.ofDigitChars_ten_toDigits]

namespace Numeral

/-- The numeral of an integer. -/
def ofInt (i : Int) : Numeral :=
  ⟨i < 0, digitBytes i.natAbs, none, none⟩

theorem valid_ofInt (i : Int) : (ofInt i).Valid where
  whole := digits_digitBytes _
  zero := digitBytes_zero
  fraction := nofun
  exponent := nofun

/-- Integers that fit into 64 bits, with or without a sign, stay whole. -/
theorem value_ofInt {i : Int} (hlow : -2 ^ 63 ≤ i) (hhigh : i < 2 ^ 64) :
    (ofInt i).value = .ok (.integer i) := by
  have hfits : wholeValue 0 (digitBytes i.natAbs) ≤ largestWord := by
    rw [wholeValue_digitBytes, largestWord, UInt64.size]
    omega
  have hsignificand : (ofInt i).significand = ⟨i.natAbs, 0⟩ := by
    simp only [significand, ofInt, foldl_takeWhole hfits, wholeValue_digitBytes, Option.getD_none,
      List.foldl_nil]
  rw [value, hsignificand]
  simp only [isWhole, ofInt, Option.isNone_none, Bool.and_self, and_self, if_true,
    decide_eq_true_eq]
  by_cases hneg : i < 0
  · rw [if_neg (Decidable.not_not.mpr hneg), if_pos (by omega)]
    congr 2
    omega
  · rw [if_pos hneg]
    congr 2
    omega

theorem bytes_toString (n : Nat) : Text.bytes (toString n) = digitBytes n :=
  Text.bytes_ascii fun _ hc =>
    lt_of_isDigit (Nat.isDigit_of_mem_toDigits (by decide) (by decide) hc)

/-- The numeral with its sign. -/
def signed (n : Numeral) : Bytes :=
  if n.negative then byte '-' :: n.text else n.text

theorem signed_eq (n : Numeral) :
    n.signed = (if n.negative then [byte '-'] else []) ++ n.text := by
  rw [signed]
  cases n.negative <;> rfl

theorem text_ofInt (i : Int) : (ofInt i).text = digitBytes i.natAbs :=
  List.append_nil _

theorem bytes_render_integer (i : Int) :
    Text.bytes (Number.integer i).render = (ofInt i).signed := by
  rw [signed, text_ofInt]
  cases i with
  | ofNat n => exact bytes_toString n
  | negSucc n =>
      have hsign : Text.bytes "-" = [byte '-'] := Text.bytes_eq _
      have hneg : (ofInt (Int.negSucc n)).negative = true := decide_eq_true (Int.negSucc_lt_zero n)
      rw [hneg, if_pos rfl]
      change Text.bytes ("-" ++ toString (n + 1)) = _
      rw [Text.bytes_append, hsign, bytes_toString]
      rfl

end Numeral

end CodeReview.Json
