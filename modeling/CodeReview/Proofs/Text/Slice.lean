import CodeReview.Proofs.Text.Bytes
import CodeReview.Proofs.Text.Split
import CodeReview.Text.Slice

/-!
The places of an ASCII character are those of its byte, since no other character has that byte, and
a text is cut there between its characters. The part between two such cuts is what stands there.
-/

namespace CodeReview.Text

/-! ### Boundaries -/

/-- The first byte of a character continues none. -/
theorem head?_utf8EncodeChar {c : Char} {b : UInt8} (h : (String.utf8EncodeChar c).head? = some b) :
    b < 0x80 ∨ 0xC0 ≤ b := by
  have leads (n k : Nat) (hn : 0 < n) (hk : 192 ≤ k) (hnk : n + k ≤ 256) (v : Nat) :
      0xC0 ≤ UInt8.ofNat (v % n + k) := by
    have hv := Nat.mod_lt v hn
    rw [UInt8.le_iff_toNat_le, UInt8.toNat_ofNat', Nat.mod_eq_of_lt (by omega)]
    exact Nat.le_trans hk (Nat.le_add_left k _)
  by_cases hc : c.toNat < 128
  · rw [utf8EncodeChar_of_lt hc, List.head?_cons, Option.some.injEq] at h
    subst h
    exact .inl (UInt8.lt_iff_toNat_lt.mpr (by rw [toNat_toUInt8 hc]; exact hc))
  · have hsize : ¬ c.val.toNat ≤ 127 := Nat.not_le_of_lt (Nat.le_of_not_lt hc)
    rw [String.utf8EncodeChar] at h
    simp only [if_neg hsize] at h
    right
    split at h
    · rw [List.head?_cons, Option.some.injEq] at h
      exact h ▸ leads _ _ (by decide) (by decide) (by decide) _
    · split at h <;> rw [List.head?_cons, Option.some.injEq] at h
      · exact h ▸ leads _ _ (by decide) (by decide) (by decide) _
      · exact h ▸ leads _ _ (by decide) (by decide) (by decide) _

/-- Between two texts there is a boundary. -/
theorem isBoundary_append (a b : String) :
    isBoundary (bytes a ++ bytes b) (bytes a).length = true := by
  rw [isBoundary, List.getElem?_append_right (Nat.le_refl _), Nat.sub_self,
    ← List.head?_eq_getElem?]
  cases hb : bytes b with
  | nil => simp
  | cons x xs =>
      have hfirst : x < 0x80 ∨ 0xC0 ≤ x := by
        rw [bytes_eq] at hb
        cases hchars : b.toList with
        | nil => simp [hchars] at hb
        | cons c cs =>
            obtain ⟨y, ys, hc⟩ := List.exists_cons_of_ne_nil (utf8EncodeChar_ne_nil c)
            rw [hchars, List.flatMap_cons, hc, List.cons_append] at hb
            refine head?_utf8EncodeChar (c := c) ?_
            rw [hc, List.head?_cons, (List.cons.inj hb).1]
      simp [hfirst]

/-- What stands between two texts is their part from the end of the first one to the start of the
second one. -/
theorem slice?_append (a s b : String) :
    slice? (a ++ s ++ b) (bytes a).length ((bytes a).length + (bytes s).length) = some s := by
  have hstart := isBoundary_append a (s ++ b)
  have hstop := isBoundary_append (a ++ s) b
  rw [bytes_append, ← List.append_assoc] at hstart
  rw [bytes_append, List.length_append] at hstop
  have hpart : ((bytes a ++ bytes s ++ bytes b).take ((bytes a).length + (bytes s).length)).drop
      (bytes a).length = bytes s := by
    rw [← List.length_append, List.take_left, List.drop_left]
  simp only [slice?, bytes_append, hstart, hstop, hpart, ofBytes?_bytes, Nat.le_add_right,
    decide_true, Bool.and_self, if_true]

/-! ### Places of a character -/

variable {c : Char}

theorem mem_bytes_iff (hc : c.toNat < 128) {s : String} : c.toUInt8 ∈ bytes s ↔ c ∈ s.toList := by
  simp [bytes_eq, List.mem_flatMap, mem_utf8EncodeChar_iff hc]

theorem bytes_singleton (hc : c.toNat < 128) : bytes (String.singleton c) = [c.toUInt8] := by
  rw [bytes_eq, String.toList_singleton, List.flatMap_singleton, utf8EncodeChar_of_lt hc]

theorem findIdx?_append_byte {b : UInt8} {xs : List UInt8} (h : b ∉ xs) (ys : List UInt8) :
    (xs ++ b :: ys).findIdx? (· == b) = some xs.length := by
  have hnone : xs.findIdx? (· == b) = none :=
    List.findIdx?_eq_none_iff.mpr fun x hx => beq_false_of_ne (ne_of_mem_of_not_mem hx h)
  rw [List.findIdx?_append, hnone, List.findIdx?_cons]
  simp

theorem find?_eq_none (hc : c.toNat < 128) {s : String} (h : c ∉ s.toList) :
    find? c (bytes s) = none :=
  List.findIdx?_eq_none_iff.mpr fun _ hx =>
    beq_false_of_ne (ne_of_mem_of_not_mem hx fun hmem => h ((mem_bytes_iff hc).mp hmem))

theorem rfind?_eq_none (hc : c.toNat < 128) {s : String} (h : c ∉ s.toList) :
    rfind? c (bytes s) = none := by
  rw [rfind?, List.findIdx?_eq_none_iff.mpr, Option.map_none]
  exact fun x hx => beq_false_of_ne
    (ne_of_mem_of_not_mem (List.mem_reverse.mp hx) fun hmem => h ((mem_bytes_iff hc).mp hmem))

theorem find?_append (hc : c.toNat < 128) {a : String} (ha : c ∉ a.toList) (b : String) :
    find? c (bytes (a ++ String.singleton c ++ b)) = some (bytes a).length := by
  rw [find?, bytes_append, bytes_append, bytes_singleton hc, List.append_assoc]
  exact findIdx?_append_byte (fun hmem => ha ((mem_bytes_iff hc).mp hmem)) _

theorem rfind?_append (hc : c.toNat < 128) (a : String) {b : String} (hb : c ∉ b.toList) :
    rfind? c (bytes (a ++ String.singleton c ++ b)) = some (bytes a).length := by
  have hreverse : (bytes (a ++ String.singleton c ++ b)).reverse =
      (bytes b).reverse ++ c.toUInt8 :: (bytes a).reverse := by
    rw [bytes_append, bytes_append, bytes_singleton hc]
    simp
  have hbyte : c.toUInt8 ∉ (bytes b).reverse := fun hmem =>
    hb ((mem_bytes_iff hc).mp (List.mem_reverse.mp hmem))
  rw [rfind?, hreverse, findIdx?_append_byte hbyte, Option.map_some, bytes_append, bytes_append,
    bytes_singleton hc, List.length_append, List.length_append, List.length_reverse,
    List.length_singleton]
  congr 1
  omega

theorem find?_eq_some_iff (hc : c.toNat < 128) {s : String} {i : Nat} :
    find? c (bytes s) = some i ↔
      ∃ a b, s = a ++ String.singleton c ++ b ∧ c ∉ a.toList ∧ i = (bytes a).length := by
  constructor
  · intro h
    have hmem : c ∈ s.toList := by
      by_contra hnot
      rw [find?_eq_none hc hnot] at h
      cases h
    obtain ⟨as, bs, hs, has⟩ := List.eq_append_cons_of_mem hmem
    have htext : s = String.ofList as ++ String.singleton c ++ String.ofList bs :=
      String.toList_injective (by simpa using hs)
    have ha : c ∉ (String.ofList as).toList := by simpa using has
    rw [htext, find?_append hc ha] at h
    exact ⟨_, _, htext, ha, (Option.some.inj h).symm⟩
  · rintro ⟨a, b, rfl, ha, rfl⟩
    exact find?_append hc ha b

theorem rfind?_eq_some_iff (hc : c.toNat < 128) {s : String} {i : Nat} :
    rfind? c (bytes s) = some i ↔
      ∃ a b, s = a ++ String.singleton c ++ b ∧ c ∉ b.toList ∧ i = (bytes a).length := by
  constructor
  · intro h
    have hmem : c ∈ s.toList := by
      by_contra hnot
      rw [rfind?_eq_none hc hnot] at h
      cases h
    obtain ⟨as, bs, hs, hbs⟩ := exists_lastMark hmem
    have htext : s = String.ofList as ++ String.singleton c ++ String.ofList bs :=
      String.toList_injective (by simpa using hs)
    have hb : c ∉ (String.ofList bs).toList := by simpa using hbs
    rw [htext, rfind?_append hc _ hb] at h
    exact ⟨_, _, htext, hb, (Option.some.inj h).symm⟩
  · rintro ⟨a, b, rfl, hb, rfl⟩
    exact rfind?_append hc a hb

end CodeReview.Text
