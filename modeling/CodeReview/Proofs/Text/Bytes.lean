import CodeReview.Text.Utf8

/-!
The UTF-8 form of a text, character by character. ASCII characters are one byte each, and the bytes
of other characters are no ASCII.
-/

namespace CodeReview.Text

theorem byteArray_toList_loop (b : ByteArray) (i : Nat) (done : List UInt8) :
    ByteArray.toList.loop b i done = done.reverse ++ b.data.toList.drop i := by
  fun_induction ByteArray.toList.loop b i done with
  | case1 i done h ih =>
      have hi : i < b.data.toList.length := h
      have hget : b.get! i = b.data.toList[i] := by
        rw [ByteArray.get!, getElem!_pos b.data i h, Array.getElem_toList]
      rw [ih, List.drop_eq_getElem_cons hi, List.reverse_cons, hget, List.append_assoc]
      rfl
  | case2 i done h =>
      have hi : b.data.toList.length ≤ i := Nat.le_of_not_lt h
      rw [List.drop_eq_nil_of_le hi, List.append_nil]

theorem byteArray_toList (b : ByteArray) : b.toList = b.data.toList := by
  rw [ByteArray.toList, byteArray_toList_loop]
  rfl

theorem bytes_eq (s : String) : bytes s = s.toList.flatMap String.utf8EncodeChar := by
  rw [bytes, String.toUTF8, byteArray_toList, ← String.utf8Encode_toList, List.utf8Encode,
    List.toList_data_toByteArray]

@[simp] theorem bytes_append (s t : String) : bytes (s ++ t) = bytes s ++ bytes t := by
  rw [bytes_eq, bytes_eq, bytes_eq, String.toList_append, List.flatMap_append]

theorem bytes_ofList (cs : List Char) :
    bytes (String.ofList cs) = cs.flatMap String.utf8EncodeChar := by
  rw [bytes_eq, String.toList_ofList]

/-- A text is read back from its bytes. -/
theorem ofBytes?_bytes (s : String) : ofBytes? (bytes s) = some s := by
  have hbytes : (⟨(bytes s).toArray⟩ : ByteArray) = s.toByteArray := by
    rw [bytes, String.toUTF8, byteArray_toList]
  rw [ofBytes?, hbytes, String.fromUTF8?, dif_pos s.isValidUTF8]
  rfl

theorem bytes_of_ofBytes? {b : List UInt8} {s : String} (h : ofBytes? b = some s) :
    bytes s = b := by
  rw [ofBytes?, String.fromUTF8?] at h
  split at h
  · cases h
    rw [bytes, String.toUTF8, byteArray_toList]
    rfl
  · cases h

theorem bytes_injective {s t : String} (h : bytes s = bytes t) : s = t := by
  have hs := ofBytes?_bytes s
  rw [h, ofBytes?_bytes] at hs
  exact (Option.some.inj hs).symm

/-! ### Characters -/

theorem utf8EncodeChar_of_lt {c : Char} (h : c.toNat < 128) :
    String.utf8EncodeChar c = [c.toUInt8] := by
  have hsize : c.val.toNat ≤ 127 := Nat.le_of_lt_succ h
  rw [String.utf8EncodeChar]
  simp only [if_pos hsize]
  rfl

theorem le_of_mem_utf8EncodeChar {c : Char} {b : UInt8} (h : 128 ≤ c.toNat)
    (hb : b ∈ String.utf8EncodeChar c) : 128 ≤ b.toNat := by
  have high (n k : Nat) (hn : 0 < n) (hk : 128 ≤ k) (hnk : n + k ≤ 256) (v : Nat) :
      128 ≤ (UInt8.ofNat (v % n + k)).toNat := by
    have hv := Nat.mod_lt v hn
    rw [UInt8.toNat_ofNat', Nat.mod_eq_of_lt (by omega)]
    omega
  have hsize : ¬ c.val.toNat ≤ 127 := Nat.not_le_of_lt h
  rw [String.utf8EncodeChar] at hb
  simp only [if_neg hsize] at hb
  split at hb
  · simp only [List.mem_cons, List.not_mem_nil, or_false] at hb
    rcases hb with rfl | rfl
    · exact high _ _ (by decide) (by decide) (by decide) _
    · exact high _ _ (by decide) (by decide) (by decide) _
  · split at hb <;> simp only [List.mem_cons, List.not_mem_nil, or_false] at hb
    · rcases hb with rfl | rfl | rfl <;> exact high _ _ (by decide) (by decide) (by decide) _
    · rcases hb with rfl | rfl | rfl | rfl <;>
        exact high _ _ (by decide) (by decide) (by decide) _

theorem toNat_toUInt8 {c : Char} (h : c.toNat < 128) : c.toUInt8.toNat = c.toNat := by
  change c.toNat % 256 = c.toNat
  omega

/-- A text of ASCII characters has one byte for each of them. -/
theorem bytes_ascii {cs : List Char} (h : ∀ c ∈ cs, c.toNat < 128) :
    bytes (String.ofList cs) = cs.map Char.toUInt8 := by
  rw [bytes_ofList]
  induction cs with
  | nil => rfl
  | cons c cs ih =>
      rw [List.flatMap_cons, utf8EncodeChar_of_lt (h c List.mem_cons_self),
        ih fun d hd => h d (List.mem_cons_of_mem c hd)]
      rfl

/-- The byte of an ASCII character is part of that character only. -/
theorem mem_utf8EncodeChar_iff {c : Char} (hc : c.toNat < 128) {d : Char} :
    c.toUInt8 ∈ String.utf8EncodeChar d ↔ d = c := by
  constructor
  · intro hmem
    by_cases hd : d.toNat < 128
    · rw [utf8EncodeChar_of_lt hd, List.mem_singleton] at hmem
      rw [← Char.toNat_inj, ← toNat_toUInt8 hd, ← toNat_toUInt8 hc, hmem]
    · have hhigh := le_of_mem_utf8EncodeChar (Nat.le_of_not_lt hd) hmem
      rw [toNat_toUInt8 hc] at hhigh
      omega
  · rintro rfl
    rw [utf8EncodeChar_of_lt hc]
    exact List.mem_singleton_self _

theorem utf8EncodeChar_ne_nil (c : Char) : String.utf8EncodeChar c ≠ [] := by
  intro h
  have hlength := String.length_utf8EncodeChar c
  rw [h, List.length_nil] at hlength
  exact absurd hlength (Nat.ne_of_lt c.utf8Size_pos)

theorem head?_bytes_iff {c : Char} (hc : c.toNat < 128) (t : String) :
    (bytes t).head? = some c.toUInt8 ↔ t.toList.head? = some c := by
  rw [bytes_eq]
  cases t.toList with
  | nil => simp
  | cons d ds =>
      obtain ⟨b, bs, hd⟩ := List.exists_cons_of_ne_nil (utf8EncodeChar_ne_nil d)
      rw [List.flatMap_cons, hd, List.cons_append, List.head?_cons, List.head?_cons,
        Option.some.injEq, Option.some.injEq]
      constructor
      · rintro rfl
        exact (mem_utf8EncodeChar_iff hc).mp (hd ▸ List.mem_cons_self)
      · rintro rfl
        rw [utf8EncodeChar_of_lt hc] at hd
        exact (List.cons.inj hd).1.symm

theorem getLast?_bytes_iff {c : Char} (hc : c.toNat < 128) (t : String) :
    (bytes t).getLast? = some c.toUInt8 ↔ t.toList.getLast? = some c := by
  rw [bytes_eq]
  rcases List.eq_nil_or_concat t.toList with h | ⟨ds, d, h⟩
  · simp [h]
  · rw [h, List.concat_eq_append, List.flatMap_append, List.flatMap_singleton,
      List.getLast?_concat, Option.some.injEq]
    rcases List.eq_nil_or_concat (String.utf8EncodeChar d) with hd | ⟨bs, b, hd⟩
    · exact absurd hd (utf8EncodeChar_ne_nil d)
    rw [hd, List.concat_eq_append, ← List.append_assoc, List.getLast?_concat, Option.some.injEq]
    constructor
    · rintro rfl
      exact (mem_utf8EncodeChar_iff hc).mp (by simp [hd])
    · rintro rfl
      rw [utf8EncodeChar_of_lt hc] at hd
      simpa using (congrArg List.getLast? hd).symm

/-- The text starts with an opening brace and ends with a closing one. -/
structure InBraces (t : String) : Prop where
  opens : t.toList.head? = some '{'
  closes : t.toList.getLast? = some '}'

theorem inBraces_iff_bytes {t : String} :
    InBraces t ↔ (bytes t).head? = some '{'.toUInt8 ∧ (bytes t).getLast? = some '}'.toUInt8 := by
  rw [head?_bytes_iff (by decide), getLast?_bytes_iff (by decide)]
  exact ⟨fun h => ⟨h.opens, h.closes⟩, fun h => ⟨h.1, h.2⟩⟩

end CodeReview.Text
