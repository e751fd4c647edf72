import CodeReview.Proofs.Json.Scan
import CodeReview.Json.Skip

/-!
How texts may be spelled. Between its marks a text stands as it is, with escapes where something
must be escaped and wherever else they are wanted. `TextForm` is the syntax alone, in which escapes
need not make sense together; `Spelled` adds what the text stands for.
-/

namespace CodeReview.Json

/-- Four hexadecimal digits and the number that they write. -/
inductive HexUnit : Bytes → Nat → Prop where
  | digits {a b c d : UInt8} {i j k l : Nat} (ha : hexValue? a = some i)
    (hb : hexValue? b = some j) (hc : hexValue? c = some k) (hd : hexValue? d = some l) :
    HexUnit [a, b, c, d] (((i * 16 + j) * 16 + k) * 16 + l)

/-- What may stand after the opening mark of a text, up to the closing mark. -/
inductive TextForm : Bytes → Prop where
  | close : TextForm [byte '"']
  | plain {b : UInt8} {t : Bytes} (h : IsPlain b) (rest : TextForm t) : TextForm (b :: t)
  | short {b : UInt8} {t : Bytes} (h : (shortEscape? b).isSome) (rest : TextForm t) :
    TextForm (byte '\\' :: b :: t)
  | unit {u t : Bytes} {n : Nat} (h : HexUnit u n) (rest : TextForm t) :
    TextForm (byte '\\' :: byte 'u' :: (u ++ t))

/-- What stands after the opening mark of a text, up to the closing mark, and the bytes that it
stands for. -/
inductive Spelled : Bytes → Bytes → Prop where
  | close : Spelled [byte '"'] []
  | plain {b : UInt8} {t bs : Bytes} (h : IsPlain b) (rest : Spelled t bs) :
    Spelled (b :: t) (b :: bs)
  | short {b c : UInt8} {t bs : Bytes} (h : shortEscape? b = some c) (rest : Spelled t bs) :
    Spelled (byte '\\' :: b :: t) (c :: bs)
  | unit {u t bs : Bytes} {n : Nat} (h : HexUnit u n) (low : isLowSurrogate n = false)
    (high : isHighSurrogate n = false) (rest : Spelled t bs) :
    Spelled (byte '\\' :: byte 'u' :: (u ++ t)) (String.utf8EncodeChar (Char.ofNat n) ++ bs)
  | pair {u v t bs : Bytes} {m n : Nat} (hu : HexUnit u m) (hv : HexUnit v n)
    (high : isHighSurrogate m = true) (low : isLowSurrogate n = true) (rest : Spelled t bs) :
    Spelled (byte '\\' :: byte 'u' :: (u ++ byte '\\' :: byte 'u' :: (v ++ t)))
      (String.utf8EncodeChar (Char.ofNat (joinSurrogates m n)) ++ bs)

/-- What stands after the opening mark of this text. -/
def Spells (t : Bytes) (s : String) : Prop :=
  Spelled t (Text.bytes s)

/-- A spelled text has the form of one. -/
theorem Spelled.form {t bs : Bytes} (h : Spelled t bs) : TextForm t := by
  induction h with
  | close => exact .close
  | plain h _ ih => exact .plain h ih
  | short h _ ih => exact .short (by simp [h]) ih
  | unit h _ _ _ ih => exact .unit h ih
  | pair hu hv _ _ _ ih => exact .unit hu (.unit hv ih)

/-! ### Reading what is spelled -/

theorem hexUnit_append {u : Bytes} {n : Nat} (h : HexUnit u n) (rest : Bytes) :
    Yields (hexUnit (u ++ rest)) n rest := by
  obtain ⟨ha, hb, hc, hd⟩ := h
  refine ⟨by simp; omega, ?_⟩
  simp only [List.cons_append, List.nil_append, hexUnit, ha, hb, hc, hd]

theorem escape_unit {u : Bytes} {n : Nat} (h : HexUnit u n) (low : isLowSurrogate n = false)
    (high : isHighSurrogate n = false) (rest : Bytes) :
    Yields (escape (byte 'u' :: (u ++ rest))) (String.utf8EncodeChar (Char.ofNat n)) rest := by
  obtain ⟨hshort, hunit⟩ := hexUnit_append h rest
  refine ⟨Nat.lt_succ_of_lt hshort, ?_⟩
  rw [escape, show shortEscape? (byte 'u') = none by decide]
  simp [escapedCodePoint, hunit, bind, Except.bind, low, high, Parsed.map, Parsed.widen]

theorem escape_pair {u v : Bytes} {m n : Nat} (hu : HexUnit u m) (hv : HexUnit v n)
    (high : isHighSurrogate m = true) (low : isLowSurrogate n = true) (rest : Bytes) :
    Yields (escape (byte 'u' :: (u ++ byte '\\' :: byte 'u' :: (v ++ rest))))
      (String.utf8EncodeChar (Char.ofNat (joinSurrogates m n))) rest := by
  obtain ⟨h₁, hfirst⟩ := hexUnit_append hu (byte '\\' :: byte 'u' :: (v ++ rest))
  obtain ⟨h₂, hsecond⟩ := hexUnit_append hv rest
  have hlow : isLowSurrogate m = false := by
    simp only [isHighSurrogate, isLowSurrogate, Bool.and_eq_true, decide_eq_true_iff] at high ⊢
    simp only [Bool.and_eq_false_iff, decide_eq_false_iff_not]
    omega
  refine ⟨by simp at h₁ h₂ ⊢; omega, ?_⟩
  rw [escape, show shortEscape? (byte 'u') = none by decide]
  simp [escapedCodePoint, hfirst, hsecond, pairByte, bind, Except.bind, hlow, high, low, Parsed.map,
    Parsed.widen]

/-- A spelled text is read as the bytes that it stands for. -/
theorem textBytes_spelled {t bs : Bytes} (h : Spelled t bs) {start rest : Bytes} (done : Bytes)
    (hshort : (t ++ rest).length ≤ start.length) :
    Yields (textBytes start (t ++ rest) hshort done) (done.reverse ++ bs) rest := by
  induction h generalizing done with
  | close =>
      rw [List.append_nil]
      exact textBytes_end _
  | @plain b t bs hb _ ih =>
      obtain ⟨hquote, hslash, hcontrol⟩ := hb
      simp only [List.cons_append] at hshort ⊢
      rw [textBytes, if_neg hquote, if_neg hslash, if_neg hcontrol]
      simpa using ih (b :: done) _
  | @short b c t bs hb _ ih =>
      simp only [List.cons_append] at hshort ⊢
      obtain ⟨hrest, hread⟩ := textBytes_escape done hshort (escape_short hb (t ++ rest))
      rw [hread]
      simpa using ih (c :: done) hrest
  | @unit u t bs n hu low high _ ih =>
      simp only [List.cons_append, List.append_assoc] at hshort ⊢
      obtain ⟨hrest, hread⟩ :=
        textBytes_escape done hshort (escape_unit hu low high (t ++ rest))
      rw [hread]
      simpa using ih ((String.utf8EncodeChar (Char.ofNat n)).reverse ++ done) hrest
  | @pair u v t bs m n hu hv high low _ ih =>
      simp only [List.cons_append, List.append_assoc] at hshort ⊢
      obtain ⟨hrest, hread⟩ :=
        textBytes_escape done hshort (escape_pair hu hv high low (t ++ rest))
      rw [hread]
      simpa using
        ih ((String.utf8EncodeChar (Char.ofNat (joinSurrogates m n))).reverse ++ done) hrest

/-- A text after its opening mark, however it is spelled, is read as the text. -/
theorem scanText_spelled {t : Bytes} {s : String} (h : Spells t s) (rest : Bytes) :
    Yields (scanText (t ++ rest)) s rest := by
  obtain ⟨hshort, hread⟩ := textBytes_spelled h [] (Nat.le_refl (t ++ rest).length)
  refine ⟨hshort, ?_⟩
  rw [scanText, hread]
  simp only [bind, Except.bind, List.reverse_nil, List.nil_append, Text.ofBytes?_bytes]

/-! ### The spelling of the printer -/

theorem spelled_plain {u t bs : Bytes} (hu : ∀ b ∈ u, IsPlain b) (h : Spelled t bs) :
    Spelled (u ++ t) (u ++ bs) := by
  induction u with
  | nil => exact h
  | cons b u ih =>
      exact .plain (hu b List.mem_cons_self) (ih fun d hd => hu d (List.mem_cons_of_mem b hd))

/-- A control character without a short escape is written with two zeros and two digits. -/
theorem spelled_control {n : Nat} (hn : n < 32) {t bs : Bytes} (h : Spelled t bs) :
    Spelled
      (byte '\\' :: byte 'u' :: byte '0' :: byte '0' :: byte (n / 16).digitChar ::
        byte (n % 16).digitChar :: t)
      (String.utf8EncodeChar (Char.ofNat n) ++ bs) := by
  have hzero : hexValue? (byte '0') = some 0 := by decide
  have hunit : HexUnit
      [byte '0', byte '0', byte (n / 16).digitChar, byte (n % 16).digitChar] n := by
    have hdigits := HexUnit.digits hzero hzero (hexValue_digitChar (n / 16) (by omega))
      (hexValue_digitChar (n % 16) (by omega))
    rw [show ((0 * 16 + 0) * 16 + n / 16) * 16 + n % 16 = n by omega] at hdigits
    exact hdigits
  have low : isLowSurrogate n = false := by
    simp [isLowSurrogate]
    omega
  have high : isHighSurrogate n = false := by
    simp [isHighSurrogate]
    omega
  exact .unit hunit low high h

/-- Each character is spelled in the way of the printer. -/
theorem spelled_char (c : Char) {t bs : Bytes} (h : Spelled t bs) :
    Spelled (Text.bytes (escapeChar c) ++ t) (String.utf8EncodeChar c ++ bs) := by
  by_cases hnamed : c ∈ named
  · obtain ⟨hascii, l, -, hl, hescape, hshort⟩ := escapeChar_named c hnamed
    have hbytes : Text.bytes (escapeChar c) = [byte '\\', byte l] := by
      rw [hescape, Text.bytes_ascii (by simp [hl])]
      rfl
    rw [hbytes, Text.utf8EncodeChar_of_lt hascii]
    exact .short hshort h
  by_cases hcontrol : c.toNat < 0x20
  · have hescape := escapeChar_control c.toNat hcontrol
    have hspelled := spelled_control hcontrol h
    rw [Char.ofNat_toNat] at hescape hspelled
    have hbytes : Text.bytes (escapeChar c) =
        [byte '\\', byte 'u', byte '0', byte '0', byte (c.toNat / 16).digitChar,
          byte (c.toNat % 16).digitChar] := by
      have hdigit : ∀ n < 16, n.digitChar.toNat < 128 := by decide
      have hhigh := hdigit (c.toNat / 16) (by omega)
      have hlow := hdigit (c.toNat % 16) (by omega)
      rw [hescape hnamed, Text.bytes_ascii (by simp [hhigh, hlow])]
      rfl
    rw [hbytes]
    exact hspelled
  · have hbytes : Text.bytes (escapeChar c) = String.utf8EncodeChar c := by
      rw [escapeChar_plain hnamed hcontrol, String.singleton_eq_ofList, Text.bytes_ofList]
      exact List.append_nil _
    rw [hbytes]
    exact spelled_plain (fun b hb => isPlain_of_mem hnamed hcontrol hb) h

/-- What is written for a text spells the text. -/
theorem spells_quoteTail (s : String) : Spells (quoteTail s) s := by
  rw [Spells, quoteTail, Text.bytes_eq s]
  induction s.toList with
  | nil =>
      have hnone : Text.bytes (String.join (List.map escapeChar [])) = [] := Text.bytes_eq _
      rw [hnone]
      exact .close
  | cons c cs ih =>
      rw [List.map_cons, String.join_cons, Text.bytes_append, List.append_assoc, List.flatMap_cons]
      exact spelled_char c ih

/-! ### Passing over texts -/

theorem skipText_form {t : Bytes} (h : TextForm t) {start rest : Bytes}
    (hshort : (t ++ rest).length ≤ start.length) :
    Yields (skipText start (t ++ rest) hshort) () rest := by
  induction h with
  | close =>
      simp only [List.singleton_append] at hshort ⊢
      rw [skipText.eq_def]
      exact ⟨hshort, if_pos rfl⟩
  | @plain b t hb _ ih =>
      obtain ⟨hquote, hslash, hcontrol⟩ := hb
      simp only [List.cons_append] at hshort ⊢
      rw [skipText.eq_def]
      simp only [if_neg hquote, if_neg hslash, if_neg hcontrol]
      exact ih _
  | @short b t hb _ ih =>
      simp only [List.cons_append] at hshort ⊢
      rw [skipText.eq_def]
      simp only [if_neg (show byte '\\' ≠ byte '"' by decide), if_true, hb]
      exact ih _
  | @unit u t n hu _ ih =>
      obtain ⟨h₁, hread⟩ := hexUnit_append hu (t ++ rest)
      simp only [List.cons_append, List.append_assoc] at hshort ⊢
      have hnone : (shortEscape? (byte 'u')).isSome = false := by decide
      rw [skipText.eq_def]
      simp only [if_neg (show byte '\\' ≠ byte '"' by decide), if_true, hnone, Bool.false_eq_true,
        if_false, hread, bind, Except.bind]
      exact ih _

end CodeReview.Json
