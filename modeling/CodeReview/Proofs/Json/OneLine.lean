import CodeReview.Proofs.Json.Encoding

/-!
The compact text of a value is one line: no character of it is a control character, whatever texts
are inside of the value.
-/

namespace CodeReview

/-- No byte is a control character. -/
def Visible (t : Json.Bytes) : Prop :=
  ∀ b ∈ t, 0x20 ≤ b.toNat

@[simp] theorem visible_nil : Visible [] := nofun

@[simp] theorem visible_cons {b : UInt8} {t : Json.Bytes} :
    Visible (b :: t) ↔ 0x20 ≤ b.toNat ∧ Visible t :=
  List.forall_mem_cons

@[simp] theorem visible_append {t u : Json.Bytes} :
    Visible (t ++ u) ↔ Visible t ∧ Visible u :=
  List.forall_mem_append

/-- The bytes of a text are visible when its characters are. -/
theorem visible_bytes_iff {t : String} :
    Visible (Text.bytes t) ↔ ∀ c ∈ t.toList, 0x20 ≤ c.toNat := by
  rw [Text.bytes_eq]
  constructor
  · intro h c hc
    by_contra hlow
    have hascii : c.toNat < 128 := by omega
    have hmem : c.toUInt8 ∈ t.toList.flatMap String.utf8EncodeChar :=
      List.mem_flatMap.mpr ⟨c, hc, (Text.mem_utf8EncodeChar_iff hascii).mpr rfl⟩
    have hbyte := h _ hmem
    rw [Text.toNat_toUInt8 hascii] at hbyte
    exact hlow hbyte
  · intro h b hb
    obtain ⟨c, hc, hb⟩ := List.mem_flatMap.mp hb
    by_cases hascii : c.toNat < 128
    · rw [Text.utf8EncodeChar_of_lt hascii, List.mem_singleton] at hb
      rw [hb, Text.toNat_toUInt8 hascii]
      exact h c hc
    · exact Nat.le_trans (by decide) (Text.le_of_mem_utf8EncodeChar (Nat.le_of_not_lt hascii) hb)

namespace Json

/-- The bytes with a meaning of their own. -/
theorem visible_marks :
    ∀ c ∈ ['"', '\\', 'u', '.', 'e', 'E', '-', '+', '[', ']', '{', '}', ',', ':'],
      0x20 ≤ (byte c).toNat :=
  List.all_iff_forall_prop.mp (by decide)

/-! ### Texts -/

theorem visible_of_isSome {α : Type} {f : UInt8 → Option α}
    (hf : ∀ n < 0x20, (f (UInt8.ofNat n)).isSome = false) {b : UInt8} (h : (f b).isSome = true) :
    0x20 ≤ b.toNat := by
  by_contra hlow
  have hnone := hf b.toNat (Nat.lt_of_not_le hlow)
  rw [UInt8.ofNat_toNat, h] at hnone
  cases hnone

theorem visible_hexValue {b : UInt8} {n : Nat} (h : hexValue? b = some n) : 0x20 ≤ b.toNat :=
  visible_of_isSome (f := hexValue?) (by decide +kernel) (by rw [h]; rfl)

/-- Control characters do not stand in a text, however it is spelled. -/
theorem TextForm.visible {t : Bytes} (h : TextForm t) : Visible t := by
  induction h with
  | close => simp [visible_marks]
  | plain h _ ih => exact visible_cons.mpr ⟨(isPlain_iff.mp h).2.2, ih⟩
  | short h _ ih =>
      simp [ih, visible_marks, visible_of_isSome (f := shortEscape?) (by decide +kernel) h]
  | unit h _ ih =>
      obtain ⟨ha, hb, hc, hd⟩ := h
      simp [ih, visible_marks, visible_hexValue ha, visible_hexValue hb, visible_hexValue hc,
        visible_hexValue hd]

/-! ### Numbers -/

theorem Digits.visible {ds : Bytes} (h : Digits ds) : Visible ds :=
  fun b hb => Nat.le_trans (by decide) (isDigit_iff.mp (h.all b hb)).1

theorem Numeral.Valid.visible_fractionText {n : Numeral} (h : n.Valid) :
    Visible n.fractionText := by
  rw [fractionText]
  split
  · exact visible_nil
  · rename_i ds hds
    simp [visible_marks, (h.fraction ds hds).visible]

theorem ExponentForm.visible {exponent : Option (Bool × Bytes)} {t : Bytes}
    (h : ExponentForm exponent t) (hds : ∀ sign ds, exponent = Option.some (sign, ds) → Digits ds) :
    Visible t := by
  cases h with
  | none => exact visible_nil
  | @some negative b s letter sign ds =>
      have hletter : 0x20 ≤ b.toNat := by
        rcases letter with rfl | rfl <;> simp [visible_marks]
      have hsign : Visible s := by
        cases sign <;> simp [visible_marks]
      simp [hletter, hsign, (hds _ ds rfl).visible]

theorem ScalarForm.visible {t : Bytes} (h : ScalarForm t) : Visible t := by
  cases h with
  | null => exact visible_bytes_iff.mpr (by simp)
  | bool b => cases b <;> exact visible_bytes_iff.mpr (by simp)
  | @number n t valid exponent =>
      have hsign : Visible (if n.negative then [byte '-'] else []) := by
        cases n.negative <;> simp [visible_marks]
      simp [hsign, valid.whole.visible, valid.visible_fractionText,
        exponent.visible valid.exponent]
  | text h => simp [visible_marks, h.visible]

/-! ### Values -/

theorem lineBytes_compact (depth : Nat) : Layout.compact.lineBytes depth = [] :=
  Text.bytes_eq _

theorem colon_compact : Text.bytes Layout.compact.colon = [byte ':'] :=
  Text.bytes_eq _

mutual

theorem visible_textOf : ∀ (v : Json) (level : Nat), Visible (textOf .compact level v)
  | .null, level => by
      rw [textOf, write, String.empty_append]
      exact ScalarForm.null.visible
  | .bool b, level => by
      have htext : textOf .compact level (.bool b) =
          Text.bytes (if b then "true" else "false") := by
        cases b <;> rw [textOf, write, String.empty_append] <;> rfl
      rw [htext]
      exact (ScalarForm.bool b).visible
  | .number n, level => by
      rw [textOf, write, String.empty_append]
      exact (scalarForm_render n).visible
  | .text s, level => by
      rw [textOf, write, String.empty_append, bytes_quote]
      simp [visible_marks, (spells_quoteTail s).form.visible]
  | .list [], level => by
      rw [textOf, write, String.empty_append]
      exact visible_bytes_iff.mpr (by simp)
  | .list (v :: vs), level => by
      rw [textOf_list, lineBytes_compact, lineBytes_compact]
      simp [visible_marks, visible_textOf v, visible_itemsTextOf vs]
  | .object [], level => by
      rw [textOf, write, String.empty_append]
      exact visible_bytes_iff.mpr (by simp)
  | .object ((k, v) :: ms), level => by
      rw [textOf_object, lineBytes_compact, lineBytes_compact, colon_compact]
      simp [visible_marks, (spells_quoteTail k).form.visible, visible_textOf v,
        visible_membersTextOf ms]

theorem visible_itemsTextOf :
    ∀ (vs : List Json) (level : Nat), Visible (itemsTextOf .compact level vs)
  | [], level => by
      rw [itemsTextOf, writeItems]
      exact visible_bytes_iff.mpr (by simp)
  | v :: vs, level => by
      rw [itemsTextOf_cons, lineBytes_compact]
      simp [visible_marks, visible_textOf v, visible_itemsTextOf vs]

theorem visible_membersTextOf :
    ∀ (ms : List (String × Json)) (level : Nat), Visible (membersTextOf .compact level ms)
  | [], level => by
      rw [membersTextOf, writeMembers]
      exact visible_bytes_iff.mpr (by simp)
  | (k, v) :: ms, level => by
      rw [membersTextOf_cons, lineBytes_compact, colon_compact]
      simp [visible_marks, (spells_quoteTail k).form.visible, visible_textOf v,
        visible_membersTextOf ms]

end

/-- The compact text of a value is one line. -/
theorem le_of_mem_compact (v : Json) : ∀ c ∈ (compact v).toList, 0x20 ≤ c.toNat :=
  visible_bytes_iff.mp (visible_textOf v 0)

end Json

end CodeReview
