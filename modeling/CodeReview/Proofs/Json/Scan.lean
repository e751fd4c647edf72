import CodeReview.Json.Printer
import CodeReview.Json.Scan
import CodeReview.Proofs.Text.Bytes

/-!
The smallest parts of a document are read as they were written: blanks, words, and texts with their
escapes.
-/

namespace CodeReview

@[simp] theorem Parsed.rest_map {s : List τ} (f : α → β) (p : Parsed α s) :
    (p.map f).rest = p.rest := rfl

@[simp] theorem Parsed.rest_widen {t s : List τ} (p : Parsed α t) (h : t.length ≤ s.length) :
    (p.widen h).rest = p.rest := rfl

namespace Json

/-- Something was read, and this is left. -/
def Yields {s : Bytes} (r : Except Fault (Parsed α s)) (a : α) (rest : Bytes) : Prop :=
  ∃ h, r = .ok ⟨a, rest, h⟩

theorem Yields.map {s rest : Bytes} {r : Except Fault (Parsed α s)} {a : α} (f : α → β)
    (h : Yields r a rest) : Yields (r.map (Parsed.map f)) (f a) rest := by
  obtain ⟨hrest, rfl⟩ := h
  exact ⟨hrest, rfl⟩

/-- What is read, and what is left, is determined by the text. -/
theorem Yields.unique {s rest rest' : Bytes} {r : Except Fault (Parsed α s)} {a a' : α}
    (h : Yields r a rest) (h' : Yields r a' rest') : a = a' ∧ rest = rest' := by
  obtain ⟨_, rfl⟩ := h
  obtain ⟨_, heq⟩ := h'
  cases heq
  exact ⟨rfl, rfl⟩

/-! ### Blanks -/

/-- Nothing but blanks. -/
def Spaces (w : Bytes) : Prop := ∀ b ∈ w, isSpace b = true

instance (w : Bytes) : Decidable (Spaces w) :=
  decidable_of_iff (w.all isSpace = true) List.all_eq_true

theorem spaces_nil : Spaces [] := nofun

theorem next_go {s w rest : Bytes} {b : UInt8} (hw : Spaces w) (hb : isSpace b = false)
    (h : (w ++ b :: rest).length ≤ s.length) :
    ∃ hrest, next.go s (w ++ b :: rest) h = some ⟨b, rest, hrest⟩ := by
  induction w with
  | nil =>
      change ∃ hrest, next.go s (b :: rest) h = _
      rw [next.go, hb]
      exact ⟨h, rfl⟩
  | cons c w ih =>
      change ∃ hrest, next.go s (c :: (w ++ b :: rest)) h = _
      rw [next.go, hw c List.mem_cons_self]
      exact ih (fun d hd => hw d (List.mem_cons_of_mem c hd)) _

/-- What comes next after blanks. -/
theorem next_append (rest : Bytes) {w : Bytes} {b : UInt8} (hw : Spaces w)
    (hb : isSpace b = false) :
    ∃ h, next (w ++ b :: rest) = some ⟨b, rest, h⟩ :=
  next_go hw hb _

theorem next_go_eq_none_iff {s t : Bytes} (h : t.length ≤ s.length) :
    next.go s t h = none ↔ Spaces t := by
  induction t with
  | nil =>
      rw [next.go]
      exact ⟨fun _ => spaces_nil, fun _ => rfl⟩
  | cons b t ih =>
      rw [next.go]
      cases hb : isSpace b with
      | false =>
          simp only [Bool.false_eq_true, if_false, reduceCtorEq, false_iff]
          intro hspaces
          rw [hspaces b List.mem_cons_self] at hb
          cases hb
      | true =>
          simp only [if_true]
          rw [ih]
          simp [Spaces, hb]

theorem next_eq_none_iff {s : Bytes} : next s = none ↔ Spaces s :=
  next_go_eq_none_iff _

theorem word_append (letters rest : Bytes) :
    ∃ h, word letters (letters ++ rest) = .ok ⟨rest, h⟩ := by
  induction letters with
  | nil => exact ⟨Nat.le_refl _, by cases rest <;> rfl⟩
  | cons l letters ih =>
      obtain ⟨h, hword⟩ := ih
      refine ⟨Nat.le_succ_of_le h, ?_⟩
      change word (l :: letters) (l :: (letters ++ rest)) = _
      rw [word, if_pos rfl, hword]
      rfl

/-! ### Texts -/

/-- A byte that stands for itself inside of a text. -/
def IsPlain (b : UInt8) : Prop :=
  b ≠ byte '"' ∧ b ≠ byte '\\' ∧ ¬ b < 0x20

theorem isPlain_iff {b : UInt8} :
    IsPlain b ↔ b.toNat ≠ 0x22 ∧ b.toNat ≠ 0x5C ∧ 0x20 ≤ b.toNat := by
  rw [IsPlain, ne_eq, ne_eq, ← UInt8.toNat_inj, ← UInt8.toNat_inj, UInt8.lt_iff_toNat_lt,
    Nat.not_lt]
  rfl

theorem textBytes_end {start rest done : Bytes} (h : (byte '"' :: rest).length ≤ start.length) :
    Yields (textBytes start (byte '"' :: rest) h done) done.reverse rest := by
  rw [textBytes]
  exact ⟨h, if_pos rfl⟩

theorem textBytes_escape {start s rest bs : Bytes} (done : Bytes)
    (h : (byte '\\' :: s).length ≤ start.length) (he : Yields (escape s) bs rest) :
    ∃ hrest, textBytes start (byte '\\' :: s) h done =
      textBytes start rest hrest (bs.reverse ++ done) := by
  obtain ⟨hshort, he⟩ := he
  refine ⟨by simp at h; omega, ?_⟩
  rw [textBytes, if_neg (by decide), if_pos rfl, he]
  rfl

/-! ### Escapes -/

theorem escape_short {b c : UInt8} (h : shortEscape? b = some c) (rest : Bytes) :
    Yields (escape (b :: rest)) [c] rest := by
  refine ⟨by simp, ?_⟩
  rw [escape]
  split
  · rename_i d hd
    rw [h] at hd
    cases hd
    rfl
  · rename_i hd
    rw [h] at hd
    cases hd

theorem hexValue_digitChar : ∀ n < 16, hexValue? (byte n.digitChar) = some n := by
  decide +kernel

/-- The characters with an escape of their own. -/
def named : List Char := ['"', '\\', '\n', '\r', '\t', '\x08', '\x0c']

theorem escapeChar_named : ∀ c ∈ named, c.toNat < 128 ∧
    ∃ l ∈ ['"', '\\', 'n', 'r', 't', 'b', 'f'], l.toNat < 128 ∧
      escapeChar c = String.ofList ['\\', l] ∧ shortEscape? (byte l) = some (byte c) := by
  intro c hc
  simp only [named, List.mem_cons, List.not_mem_nil, or_false] at hc
  rcases hc with rfl | rfl | rfl | rfl | rfl | rfl | rfl
  · exact ⟨by decide, '"', by decide⟩
  · exact ⟨by decide, '\\', by decide⟩
  · exact ⟨by decide, 'n', by decide⟩
  · exact ⟨by decide, 'r', by decide⟩
  · exact ⟨by decide, 't', by decide⟩
  · exact ⟨by decide, 'b', by decide⟩
  · exact ⟨by decide, 'f', by decide⟩

theorem escapeChar_control : ∀ n < 32, Char.ofNat n ∉ named →
    escapeChar (Char.ofNat n) =
      String.ofList ['\\', 'u', '0', '0', (n / 16).digitChar, (n % 16).digitChar] := by
  decide

theorem escapeChar_plain {c : Char} (hnamed : c ∉ named) (hcontrol : ¬ c.toNat < 0x20) :
    escapeChar c = String.singleton c := by
  simp only [named, List.mem_cons, List.not_mem_nil, or_false, not_or] at hnamed
  obtain ⟨h₁, h₂, h₃, h₄, h₅, h₆, h₇⟩ := hnamed
  rw [escapeChar, if_neg h₁, if_neg h₂, if_neg h₃, if_neg h₄, if_neg h₅, if_neg h₆, if_neg h₇,
    if_neg (by omega), if_neg hcontrol]

theorem isPlain_of_mem {c : Char} {b : UInt8} (hnamed : c ∉ named) (hcontrol : ¬ c.toNat < 0x20)
    (hb : b ∈ String.utf8EncodeChar c) : IsPlain b := by
  by_cases hascii : c.toNat < 128
  · have hquote : c.toNat ≠ 0x22 := fun h => hnamed (by simp [named, ← Char.toNat_inj, h])
    have hslash : c.toNat ≠ 0x5C := fun h => hnamed (by simp [named, ← Char.toNat_inj, h])
    rw [Text.utf8EncodeChar_of_lt hascii, List.mem_singleton] at hb
    rw [hb, isPlain_iff, Text.toNat_toUInt8 hascii]
    exact ⟨hquote, hslash, Nat.le_of_not_lt hcontrol⟩
  · have hhigh := Text.le_of_mem_utf8EncodeChar (Nat.le_of_not_lt hascii) hb
    rw [isPlain_iff]
    omega

/-- A text in quotation marks, after the first of them. -/
def quoteTail (s : String) : Bytes :=
  Text.bytes (String.join (s.toList.map escapeChar)) ++ [byte '"']

theorem bytes_quote (s : String) : Text.bytes (quote s) = byte '"' :: quoteTail s := by
  have hmark : Text.bytes "\"" = [byte '"'] := Text.bytes_eq _
  rw [quote, Text.bytes_append, Text.bytes_append, hmark, List.append_assoc]
  rfl

end Json

end CodeReview
