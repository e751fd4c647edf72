import CodeReview.Proofs.Json.Skip

/-!
What is accepted is JSON: what a reader takes from the start of a text is a value of the syntax, and
nothing but blanks stands before it. Numbers, texts and words come first, then the loops over lists
and objects.
-/

namespace CodeReview.Json

/-! ### Results -/

theorem ok_of_bind {ε α β : Type} {x : Except ε α} {f : α → Except ε β} {b : β}
    (h : (x >>= f) = .ok b) : ∃ a, x = .ok a ∧ f a = .ok b := by
  cases x with
  | error e => cases h
  | ok a => exact ⟨a, rfl, h⟩

theorem ok_of_map {ε α β : Type} {r : Except ε α} {f : α → β} {b : β} (h : r.map f = .ok b) :
    ∃ a, r = .ok a ∧ b = f a := by
  cases r with
  | error e => cases h
  | ok a =>
      cases h
      exact ⟨a, rfl, rfl⟩

theorem ok_of_toOption {ε α : Type} {x : Except ε α} {a : α} (h : x.toOption = some a) :
    x = .ok a := by
  cases x with
  | error e => cases h
  | ok b => exact congrArg Except.ok (Option.some.inj h)

/-! ### Blanks and words -/

theorem eq_of_next_go {s t : Bytes} {h : t.length ≤ s.length} {p : Parsed UInt8 s}
    (hnext : next.go s t h = some p) :
    ∃ w, Spaces w ∧ isSpace p.value = false ∧ t = w ++ p.value :: p.rest := by
  induction t with
  | nil => cases hnext
  | cons b t ih =>
      rw [next.go] at hnext
      split at hnext
      · rename_i hb
        obtain ⟨w, hw, hp, rfl⟩ := ih hnext
        refine ⟨b :: w, ?_, hp, rfl⟩
        rintro c (_ | ⟨_, hc⟩)
        · exact hb
        · exact hw c hc
      · rename_i hb
        cases hnext
        exact ⟨[], spaces_nil, by simpa using hb, rfl⟩

/-- Only blanks stand before what comes next. -/
theorem eq_of_next {s : Bytes} {p : Parsed UInt8 s} (h : next s = some p) :
    ∃ w, Spaces w ∧ isSpace p.value = false ∧ s = w ++ p.value :: p.rest :=
  eq_of_next_go h

theorem eq_of_word {letters s : Bytes} {r : Rest s} (h : word letters s = .ok r) :
    s = letters ++ r.1 := by
  induction letters generalizing s with
  | nil =>
      cases s <;> cases h <;> rfl
  | cons l letters ih =>
      cases s with
      | nil => cases h
      | cons b s =>
          rw [word] at h
          split at h
          · rename_i hb
            obtain ⟨r', hr, hok⟩ := ok_of_bind h
            cases hok
            rw [hb, List.cons_append, ← ih hr]
          · cases h

/-! ### Texts -/

theorem form_of_hexUnit {s rest : Bytes} {n : Nat} (h : Yields (hexUnit s) n rest) :
    ∃ u, HexUnit u n ∧ s = u ++ rest := by
  obtain ⟨hshort, h⟩ := h
  rw [hexUnit.eq_def] at h
  split at h
  · split at h
    · rename_i hi hj hk hl
      cases h
      exact ⟨_, .digits hi hj hk hl, rfl⟩
    · cases h
  · cases h

theorem eq_of_pairByte {b : UInt8} {s : Bytes} {p : Parsed Unit s} (h : pairByte b s = .ok p) :
    s = b :: p.rest := by
  cases s with
  | nil => cases h
  | cons c s =>
      rw [pairByte] at h
      split at h
      · rename_i hc
        cases h
        rw [hc]
      · cases h

/-- One unit was read, or two of them that belong together. -/
theorem units_of_escapedCodePoint {s : Bytes} {p : Parsed Nat s} (h : escapedCodePoint s = .ok p) :
    (∃ u, HexUnit u p.value ∧ isLowSurrogate p.value = false ∧ isHighSurrogate p.value = false ∧
        s = u ++ p.rest) ∨
      ∃ u m v n, HexUnit u m ∧ HexUnit v n ∧ isHighSurrogate m = true ∧ isLowSurrogate n = true ∧
        p.value = joinSurrogates m n ∧ s = u ++ byte '\\' :: byte 'u' :: (v ++ p.rest) := by
  obtain ⟨first, hfirst, h⟩ := ok_of_bind h
  obtain ⟨u, hu, hs⟩ := form_of_hexUnit ⟨first.shorter, hfirst⟩
  split at h
  · cases h
  rename_i hlow
  split at h
  · rename_i hhigh
    obtain ⟨slash, hslash, h⟩ := ok_of_bind h
    obtain ⟨letter, hletter, h⟩ := ok_of_bind h
    obtain ⟨second, hsecond, h⟩ := ok_of_bind h
    obtain ⟨v, hv, hrest⟩ := form_of_hexUnit ⟨second.shorter, hsecond⟩
    split at h
    · rename_i hpair
      obtain rfl := Except.ok.inj h
      rw [eq_of_pairByte hslash, eq_of_pairByte hletter, hrest] at hs
      exact .inr ⟨u, _, v, _, hu, hv, hhigh, hpair, rfl, hs⟩
    · cases h
  · rename_i hhigh
    cases h
    exact .inl ⟨u, hu, Bool.eq_false_iff.mpr hlow, Bool.eq_false_iff.mpr hhigh, hs⟩

/-- What an escape reads may stand after a backslash. -/
theorem spelled_of_escape {s : Bytes} {p : Parsed Bytes s} (h : escape s = .ok p) :
    ∃ u, s = u ++ p.rest ∧
      ∀ t bs, Spelled t bs → Spelled (byte '\\' :: (u ++ t)) (p.value ++ bs) := by
  cases s with
  | nil => cases h
  | cons b s =>
      rw [escape] at h
      split at h
      · rename_i c hc
        cases h
        exact ⟨[b], rfl, fun t bs ht => .short hc ht⟩
      split at h
      · rename_i hb
        subst hb
        obtain ⟨q, hq, h⟩ := ok_of_bind h
        cases h
        obtain ⟨u, hu, hlow, hhigh, hs⟩ | ⟨u, m, v, n, hu, hv, hhigh, hlow, hvalue, hs⟩ :=
          units_of_escapedCodePoint hq
        · exact ⟨byte 'u' :: u, congrArg _ hs, fun t bs ht => .unit hu hlow hhigh ht⟩
        · refine ⟨byte 'u' :: (u ++ byte '\\' :: byte 'u' :: v), ?_, fun t bs ht => ?_⟩
          · have hcons := congrArg (byte 'u' :: ·) hs
            simpa using hcons
          · have hspelled := Spelled.pair hu hv hhigh hlow ht
            rw [← hvalue] at hspelled
            simpa [Parsed.map, Parsed.widen] using hspelled
      · cases h

theorem spelled_of_textBytes {start s done : Bytes} {hs : s.length ≤ start.length}
    {p : Parsed Bytes start} (h : textBytes start s hs done = .ok p) :
    ∃ t bs, Spelled t bs ∧ p.value = done.reverse ++ bs ∧ s = t ++ p.rest := by
  fun_induction textBytes start s hs done with
  | case1 => cases h
  | case2 done rest =>
      cases h
      exact ⟨[byte '"'], [], .close, (List.append_nil _).symm, rfl⟩
  | case3 done rest _ _ _ ih =>
      obtain ⟨e, he, h⟩ := ok_of_bind h
      obtain ⟨t, bs, ht, hvalue, hrest⟩ := ih e h
      obtain ⟨u, hu, hspelled⟩ := spelled_of_escape he
      refine ⟨byte '\\' :: (u ++ t), e.value ++ bs, hspelled t bs ht, ?_, ?_⟩
      · rw [hvalue]
        simp
      · rw [hu, hrest]
        simp
  | case4 => cases h
  | case5 done b rest _ hquote hslash hcontrol _ ih =>
      obtain ⟨t, bs, ht, hvalue, hrest⟩ := ih h
      refine ⟨b :: t, b :: bs, .plain ⟨hquote, hslash, hcontrol⟩ ht, ?_, by rw [hrest]; rfl⟩
      rw [hvalue]
      simp

/-- A text that is read was spelled there. -/
theorem spells_of_scanText {s : Bytes} {p : Parsed String s} (h : scanText s = .ok p) :
    ∃ t, Spells t p.value ∧ s = t ++ p.rest := by
  obtain ⟨q, hq, h⟩ := ok_of_bind h
  obtain ⟨t, bs, ht, hvalue, hs⟩ := spelled_of_textBytes hq
  split at h
  · rename_i r htext
    cases h
    refine ⟨t, ?_, hs⟩
    rw [Spells, Text.bytes_of_ofBytes? htext, hvalue]
    exact ht
  · cases h

/-! ### Numbers -/

theorem digits_takeWhile (s : Bytes) : ∀ b ∈ s.takeWhile isDigit, isDigit b = true :=
  fun _ hb => List.mem_takeWhile_imp hb

theorem digits_cons {b : UInt8} (hb : isDigit b = true) (s : Bytes) :
    Digits (b :: s.takeWhile isDigit) where
  some := List.cons_ne_nil _ _
  all := by
    rintro c (_ | ⟨_, hc⟩)
    · exact hb
    · exact digits_takeWhile s c hc

theorem eq_of_wholePart {atEnd : Cause} {s : Bytes} {p : Parsed Bytes s}
    (h : wholePart atEnd s = .ok p) :
    Digits p.value ∧ (p.value.head? = some (byte '0') → p.value = [byte '0']) ∧
      s = p.value ++ p.rest := by
  cases s with
  | nil => cases h
  | cons b s =>
      rw [wholePart] at h
      split at h
      · rename_i hb
        subst hb
        split at h
        · cases h
        · cases h
          exact ⟨⟨by simp, by simp; decide⟩, fun _ => rfl, rfl⟩
      split at h
      · rename_i hzero hdigit
        cases h
        refine ⟨digits_cons hdigit s, fun hhead => absurd (Option.some.inj hhead) hzero, ?_⟩
        exact congrArg (b :: ·) List.takeWhile_append_dropWhile.symm
      · cases h

theorem eq_of_fractionPart {atEnd : Cause} {s : Bytes} {q : Option Bytes × Rest s}
    (h : fractionPart atEnd s = .ok q) :
    (∀ ds, q.1 = some ds → Digits ds) ∧
      ∀ n : Numeral, n.fraction = q.1 → s = n.fractionText ++ q.2.1 := by
  have hnone {r : Rest s} (hr : s = r.1) (hq : (none, r) = q) :
      (∀ ds, q.1 = some ds → Digits ds) ∧
        ∀ n : Numeral, n.fraction = q.1 → s = n.fractionText ++ q.2.1 := by
    subst hq
    refine ⟨nofun, fun n hn => ?_⟩
    rw [Numeral.fractionText, hn]
    exact hr
  cases s with
  | nil => exact hnone rfl (Except.ok.inj h)
  | cons b s =>
      rw [fractionPart] at h
      split at h
      · rename_i hb
        dsimp only at h
        split at h
        · cases h
        · cases h
        · rename_i c ds hdigits
          cases h
          refine ⟨?_, fun n hn => ?_⟩
          · rintro _ ⟨⟩
            exact ⟨by simp [hdigits], digits_takeWhile s⟩
          · rw [Numeral.fractionText, hn, hb]
            exact congrArg (byte '.' :: ·) List.takeWhile_append_dropWhile.symm
      · exact hnone rfl (Except.ok.inj h)

theorem form_of_exponentSign (s : Bytes) :
    ∃ t, SignForm (exponentSign s).1 t ∧ s = t ++ (exponentSign s).2.1 := by
  cases s with
  | nil => exact ⟨[], .none, rfl⟩
  | cons b s =>
      rw [exponentSign]
      split
      · rename_i hb
        exact ⟨[byte '-'], .minus, by rw [hb]; rfl⟩
      split
      · rename_i hb
        exact ⟨[byte '+'], .plus, by rw [hb]; rfl⟩
      · exact ⟨[], .none, rfl⟩

theorem form_of_exponentPart {atEnd : Cause} {s : Bytes} {q : Option (Bool × Bytes) × Rest s}
    (h : exponentPart atEnd s = .ok q) :
    (∀ sign ds, q.1 = some (sign, ds) → Digits ds) ∧
      ∃ t, ExponentForm q.1 t ∧ s = t ++ q.2.1 := by
  have habsent (sign : Bool) (ds : Bytes) (h : none = some (sign, ds)) : Digits ds := by
    cases h
  cases s with
  | nil =>
      cases h
      exact ⟨habsent, [], .none, rfl⟩
  | cons b s =>
      rw [exponentPart] at h
      split at h
      · rename_i hb
        obtain ⟨u, hu, hs⟩ := form_of_exponentSign s
        dsimp only at h
        split at h
        · cases h
        rename_i c after hafter
        split at h
        · rename_i hc
          cases h
          refine ⟨?_, _, .some hb hu _, ?_⟩
          · rintro _ _ ⟨⟩
            exact digits_cons hc after
          · rw [hafter] at hs
            have hrest := List.takeWhile_append_dropWhile (p := isDigit) (l := after)
            change b :: s = b :: (u ++ c :: after.takeWhile isDigit) ++ after.dropWhile isDigit
            rw [hs, List.cons_append, List.append_assoc, List.cons_append, hrest]
        · cases h
      · cases h
        exact ⟨habsent, [], .none, rfl⟩

theorem form_of_scanNumeral {atEnd : Cause} {negative : Bool} {s : Bytes} {p : Parsed Numeral s}
    (h : scanNumeral atEnd negative s = .ok p) :
    ∃ t, ScalarForm ((if negative then [byte '-'] else []) ++ t) ∧ s = t ++ p.rest := by
  obtain ⟨whole, hwhole, h⟩ := ok_of_bind h
  obtain ⟨fraction, hfraction, h⟩ := ok_of_bind h
  obtain ⟨exponent, hexponent, h⟩ := ok_of_bind h
  cases h
  obtain ⟨hdigits, hzero, hs⟩ := eq_of_wholePart hwhole
  obtain ⟨hfdigits, hf⟩ := eq_of_fractionPart hfraction
  obtain ⟨hedigits, t, ht, he⟩ := form_of_exponentPart hexponent
  let n : Numeral := ⟨negative, whole.value, fraction.1, exponent.1⟩
  have hn : n.Valid := ⟨hdigits, hzero, hfdigits, hedigits⟩
  refine ⟨_, .number hn ht, ?_⟩
  rw [hf n rfl, he] at hs
  simpa using hs

/-! ### Heads -/

/-- The bracket that opens a container. -/
def Container.opening : Container → UInt8
  | .list => byte '['
  | .object => byte '{'

/-- What is found at the start of a text was written there. -/
structure Leaves.Sound (leaves : Leaves α) (written : Bytes → α → Prop) : Prop where
  null : written (Text.bytes "null") leaves.null
  bool : ∀ b, written (Text.bytes (if b then "true" else "false")) (leaves.bool b)
  number : ∀ {negative : Bool} {s : Bytes} {p : Parsed α s}, leaves.number negative s = .ok p →
    ∃ t, written ((if negative then [byte '-'] else []) ++ t) p.value ∧ s = t ++ p.rest
  text : ∀ {s : Bytes} {p : Parsed α s}, leaves.text s = .ok p →
    ∃ t, written (byte '"' :: t) p.value ∧ s = t ++ p.rest

/-- The value without parts is written like this. Numbers are only said to be numbers. -/
inductive Scalar.Written : Bytes → Scalar → Prop where
  | null : Written (Text.bytes "null") .null
  | bool (b : Bool) : Written (Text.bytes (if b then "true" else "false")) (.bool b)
  | number {t : Bytes} {n : Number} (h : ScalarForm t) : Written t (.number n)
  | text {t : Bytes} {s : String} (h : Spells t s) : Written (byte '"' :: t) (.text s)

theorem Scalar.Written.form {t : Bytes} {a : Scalar} (h : a.Written t) : ScalarForm t := by
  cases h with
  | null => exact .null
  | bool b => exact .bool b
  | number h => exact h
  | text h => exact .text h.form

theorem scalarLeaves_sound : scalarLeaves.Sound fun t a => a.Written t where
  null := .null
  bool := .bool
  number := by
    intro negative s p h
    obtain ⟨q, hq, rfl⟩ := ok_of_map h
    obtain ⟨n, hn, hq⟩ := ok_of_bind hq
    split at hq
    · cases hq
      obtain ⟨t, ht, hs⟩ := form_of_scanNumeral hn
      exact ⟨t, .number ht, hs⟩
    · cases hq
  text := by
    intro s p h
    obtain ⟨q, hq, rfl⟩ := ok_of_map h
    obtain ⟨t, ht, hs⟩ := spells_of_scanText hq
    exact ⟨t, .text ht, hs⟩

/-- What was found at the start of a text: a value without parts, or an opening bracket. -/
inductive HeadForm {α : Type} (written : Bytes → α → Prop) {s : Bytes} : Head α s → Prop where
  | scalar {p : Parsed α s} {w t : Bytes} (blank : Spaces w) (form : written t p.value)
    (eq : s = w ++ (t ++ p.rest)) : HeadForm written (.scalar p)
  | container {c : Container} {p : Parsed Unit s} {w : Bytes} (blank : Spaces w)
    (eq : s = w ++ c.opening :: p.rest) : HeadForm written (.container c p)

theorem headForm_word {α : Type} {written : Bytes → α → Prop} {s w rest : Bytes} {b : UInt8}
    {letters : Bytes} {t : String} {a : α} (hw : Spaces w) (hs : s = w ++ b :: rest)
    (ht : Text.bytes t = b :: letters) (hform : written (Text.bytes t) a) {r : Rest rest}
    (h : word letters rest = .ok r) (hshort : r.1.length < s.length) :
    HeadForm written (.scalar ⟨a, r.1, hshort⟩) := by
  refine .scalar hw hform ?_
  rw [eq_of_word h] at hs
  rw [ht]
  exact hs

theorem form_of_head {leaves : Leaves α} {written : Bytes → α → Prop}
    (hleaves : leaves.Sound written) {s : Bytes} {r : Head α s} (h : leaves.head s = .ok r) :
    HeadForm written r := by
  -- One case for each first byte, in the order of the reader: the letters of the words, the sign,
  -- the digits, the quotation mark and the two brackets.
  rw [Leaves.head] at h
  split at h
  · cases h
  rename_i p hnext
  obtain ⟨w, hw, -, hs⟩ := eq_of_next hnext
  dsimp only at h
  split at h
  · rename_i hb
    rw [hb] at hs
    obtain ⟨q, hq, h⟩ := ok_of_bind h
    cases h
    exact headForm_word hw hs (Text.bytes_eq _) hleaves.null hq _
  split at h
  · rename_i hb
    rw [hb] at hs
    obtain ⟨q, hq, h⟩ := ok_of_bind h
    cases h
    exact headForm_word hw hs (Text.bytes_eq _) (hleaves.bool true) hq _
  split at h
  · rename_i hb
    rw [hb] at hs
    obtain ⟨q, hq, h⟩ := ok_of_bind h
    cases h
    exact headForm_word hw hs (Text.bytes_eq _) (hleaves.bool false) hq _
  split at h
  · rename_i hb
    obtain ⟨q, hq, h⟩ := ok_of_bind h
    cases h
    obtain ⟨t, ht, hrest⟩ := hleaves.number hq
    rw [hb, hrest] at hs
    exact .scalar hw ht hs
  split at h
  · obtain ⟨q, hq, h⟩ := ok_of_bind h
    cases h
    obtain ⟨t, ht, hrest⟩ := hleaves.number hq
    rw [hrest] at hs
    exact .scalar hw ht hs
  split at h
  · rename_i hb
    obtain ⟨q, hq, h⟩ := ok_of_bind h
    cases h
    obtain ⟨t, ht, hrest⟩ := hleaves.text hq
    rw [hb, hrest] at hs
    exact .scalar hw ht hs
  split at h
  · rename_i hb
    cases h
    rw [hb] at hs
    exact .container hw hs
  split at h
  · rename_i hb
    cases h
    rw [hb] at hs
    exact .container hw hs
  · cases h

/-! ### Lists and objects -/

/-- What is taken from the start of a text was written there for it, and nothing but blanks stands
before it. -/
def Accepts (read : (s : Bytes) → Except Fault (Parsed α s)) (written : Bytes → α → Prop) : Prop :=
  ∀ ⦃s : Bytes⦄ ⦃p : Parsed α s⦄, read s = .ok p →
    ∃ w t, Spaces w ∧ written t p.value ∧ s = w ++ (t ++ p.rest)

theorem ok_of_within {place : Place} {r : Except Fault α} {a : α} (h : within place r = .ok a) :
    r = .ok a := by
  cases r with
  | error e => cases h
  | ok b =>
      cases h
      rfl

/-- The relation of a form to no value at all. -/
abbrev ofForm (form : Bytes → Prop) : Bytes → Unit → Prop := fun t _ => form t

section Items

variable {item : (s : Bytes) → Except Fault (Parsed α s)} {written : Bytes → α → Prop}
  (hitem : Accepts item written)
include hitem

theorem form_of_items {start s : Bytes} {hs : s.length < start.length} {n : Nat} {done : List α}
    {p : Parsed (List α) start} (h : items item start s hs n done = .ok p) :
    ∃ ts as, ListText written ts as ∧ p.value = done.reverse ++ as ∧ s = ts ++ p.rest := by
  fun_induction items item start s hs n done with
  | case1 s hs n done ih =>
      obtain ⟨q, hq, h⟩ := ok_of_bind h
      obtain ⟨w, t, hw, ht, hs⟩ := hitem (ok_of_within hq)
      split at h
      · cases h
      rename_i c hc
      obtain ⟨w', hw', -, hrest⟩ := eq_of_next hc
      split at h
      · rename_i hb
        cases h
        rw [hrest, hb] at hs
        exact ⟨_, [q.value], .last hw ht hw', List.reverse_cons, by simpa using hs⟩
      split at h
      · rename_i hb
        split at h
        · cases h
        split at h
        · cases h
        obtain ⟨ts, as, hts, hvalue, htail⟩ := ih _ _ h
        rw [hrest, hb, htail] at hs
        exact ⟨_, q.value :: as, .more hw ht hw' hts, by simpa using hvalue, by simpa using hs⟩
      · cases h

theorem form_of_itemsFrom {s : Bytes} {opened : Parsed Unit s} {p : Parsed (List α) s}
    (h : itemsFrom item opened = .ok p) :
    ∃ ts, ListBody written ts p.value ∧ opened.rest = ts ++ p.rest := by
  rw [itemsFrom] at h
  split at h
  · cases h
  rename_i c hc
  obtain ⟨w, hw, -, hrest⟩ := eq_of_next hc
  split at h
  · rename_i hb
    cases h
    rw [hb] at hrest
    exact ⟨_, .empty hw, by simpa using hrest⟩
  · obtain ⟨ts, as, hts, hvalue, htail⟩ := form_of_items hitem h
    rw [List.reverse_nil, List.nil_append] at hvalue
    exact ⟨ts, .items (hvalue ▸ hts), htail⟩

end Items

section Members

variable {form : Bytes → Prop}

/-- A colon and a value of the form are taken after each name. -/
def AcceptsMember (member : String → σ → (s : Bytes) → Except Fault (Parsed σ s))
    (form : Bytes → Prop) : Prop :=
  ∀ {name : String} {state : σ} {s : Bytes} {p : Parsed σ s}, member name state s = .ok p →
    ∃ w₁ w₂ t, Spaces w₁ ∧ Spaces w₂ ∧ form t ∧ s = w₁ ++ byte ':' :: (w₂ ++ (t ++ p.rest))

theorem form_of_memberValue {read : (s : Bytes) → Except Fault (Parsed α s)}
    {written : Bytes → α → Prop} (hread : Accepts read written) {name : String} {s : Bytes}
    {p : Parsed α s} (h : memberValue name read s = .ok p) :
    ∃ w₁ w₂ t, Spaces w₁ ∧ Spaces w₂ ∧ written t p.value ∧
      s = w₁ ++ byte ':' :: (w₂ ++ (t ++ p.rest)) := by
  obtain ⟨c, hc, h⟩ := ok_of_bind h
  obtain ⟨q, hq, h⟩ := ok_of_bind h
  cases h
  rw [colon] at hc
  split at hc
  · cases hc
  rename_i b hb
  obtain ⟨w₁, h₁, -, hs⟩ := eq_of_next hb
  split at hc
  · rename_i hcolon
    cases hc
    obtain ⟨w₂, t, h₂, ht, hrest⟩ := hread (ok_of_within hq)
    change b.rest = w₂ ++ (t ++ q.rest) at hrest
    rw [hcolon, hrest] at hs
    exact ⟨w₁, w₂, t, h₁, h₂, ht, hs⟩
  · cases hc

theorem form_of_members {member : String → σ → (s : Bytes) → Except Fault (Parsed σ s)}
    (hmember : AcceptsMember member form) {start s : Bytes} {hs : s.length < start.length}
    {state : σ} {p : Parsed σ start} (h : members member start s hs state = .ok p) :
    ∃ ts ms, MembersText (ofForm TextForm) (fun _ => ofForm form) ts ms ∧ s = ts ++ p.rest := by
  fun_induction members member start s hs state with
  | case1 s hs state ih =>
      obtain ⟨name, hname, h⟩ := ok_of_bind h
      obtain ⟨q, hq, h⟩ := ok_of_bind h
      obtain ⟨n, hn, hs⟩ := spells_of_scanText hname
      obtain ⟨w₁, w₂, t, h₁, h₂, ht, hvalue⟩ := hmember hq
      split at h
      · cases h
      rename_i c hc
      obtain ⟨w₃, h₃, -, hrest⟩ := eq_of_next hc
      split at h
      · rename_i hb
        cases h
        rw [hvalue, hrest, hb] at hs
        exact ⟨_, [((), ())], .last hn.form h₁ h₂ ht h₃, by simpa using hs⟩
      split at h
      · rename_i hb
        split at h
        · cases h
        rename_i d hd
        obtain ⟨w₄, h₄, -, hmark⟩ := eq_of_next hd
        split at h
        · rename_i hquote
          obtain ⟨ts, ms, hts, htail⟩ := ih _ _ _ _ h
          rw [hvalue, hrest, hb, hmark, hquote, htail] at hs
          exact ⟨_, ((), ()) :: ms, .more hn.form h₁ h₂ ht h₃ h₄ hts, by simpa using hs⟩
        split at h <;> cases h
      · cases h

theorem form_of_membersFrom {member : String → σ → (s : Bytes) → Except Fault (Parsed σ s)}
    (hmember : AcceptsMember member form) {state : σ} {s : Bytes} {opened : Parsed Unit s}
    {p : Parsed σ s} (h : membersFrom member state opened = .ok p) :
    ∃ ts ms, ObjectBody (ofForm TextForm) (fun _ => ofForm form) ts ms ∧
      opened.rest = ts ++ p.rest := by
  rw [membersFrom] at h
  split at h
  · cases h
  rename_i c hc
  obtain ⟨w, hw, -, hrest⟩ := eq_of_next hc
  split at h
  · rename_i hb
    cases h
    rw [hb] at hrest
    exact ⟨_, [], .empty hw, by simpa using hrest⟩
  split at h
  · rename_i hb
    obtain ⟨ts, ms, hts, htail⟩ := form_of_members hmember h
    rw [hb, htail] at hrest
    exact ⟨_, ms, .members hw hts, by simpa using hrest⟩
  · cases h

end Members

/-! ### Values -/

/-- A value that was read was written in the syntax, no deeper than may be read. -/
theorem accepts_value (depth : Nat) : Accepts (Reader.value depth) fun t _ => Form depth t := by
  induction depth with
  | zero =>
      intro s p h
      obtain ⟨r, hr, h⟩ := ok_of_bind h
      obtain ⟨hw, ht, hs⟩ | - := form_of_head scalarLeaves_sound hr
      · cases h
        exact ⟨_, _, hw, ht.form, hs⟩
      · cases h
  | succ depth ih =>
      intro s p h
      obtain ⟨r, hr, h⟩ := ok_of_bind h
      obtain ⟨hw, ht, hs⟩ | @⟨c, _, _, hw, hs⟩ := form_of_head scalarLeaves_sound hr
      · cases h
        exact ⟨_, _, hw, .inl ht.form, hs⟩
      cases c with
      | list =>
          obtain ⟨q, hq, rfl⟩ := ok_of_map h
          obtain ⟨ts, hts, hrest⟩ := form_of_itemsFrom ih hq
          have hitems : ListBody (fun t _ => Form depth t) ts (q.value.map fun _ => ()) :=
            hts.forget fun t _ (h : Form depth t) => h
          rw [hrest] at hs
          exact ⟨_, _, hw, .inr (.inl ⟨ts, _, rfl, hitems, rfl⟩), hs⟩
      | object =>
          obtain ⟨q, hq, rfl⟩ := ok_of_map h
          have hmember :
              AcceptsMember (Reader.gather Assoc.put (Reader.value depth)) (Form depth) := by
            intro name state s p h
            obtain ⟨v, hv, rfl⟩ := ok_of_map h
            exact form_of_memberValue ih hv
          obtain ⟨ts, ms, hts, hrest⟩ := form_of_membersFrom hmember hq
          rw [hrest] at hs
          exact ⟨_, _, hw, .inr (.inr ⟨ts, ms, rfl, hts, trivial⟩), hs⟩

/-! ### Documents -/

/-- The text is one object of JSON, however deep, and nothing else. -/
def IsObject (t : String) : Prop :=
  ∃ depth ts, ObjectForm depth ts ∧ Text.bytes t = byte '{' :: ts

/-- No object goes on with another text to an object. -/
theorem IsObject.eq_empty {t u : String} (h : IsObject t) (happend : IsObject (t ++ u)) :
    u = "" := by
  obtain ⟨depth, ts, hts, ht⟩ := h
  obtain ⟨depth', us, hus, htu⟩ := happend
  rw [Text.bytes_append, ht] at htu
  have htail : ts ++ Text.bytes u = us ++ [] := by
    rw [List.append_nil]
    exact (List.cons.inj htu).2
  exact Text.bytes_injective ((hts.unique hus htail).2.trans (Text.bytes_eq "").symm)

/-- An object stands in braces. -/
theorem IsObject.inBraces {t : String} (h : IsObject t) : Text.InBraces t := by
  obtain ⟨depth, ts, ⟨ms, hbody⟩, ht⟩ := h
  obtain ⟨us, rfl⟩ := hbody.exists_append
  rw [Text.inBraces_iff_bytes, ht, ← List.cons_append, List.getLast?_concat]
  exact ⟨rfl, rfl⟩

theorem objectForm_of_form {depth : Nat} {ts : Bytes} (h : Form depth (byte '{' :: ts)) :
    ∃ d, ObjectForm d ts := by
  -- No word, number or text starts with a brace.
  have hscalar : ¬ ScalarForm (byte '{' :: ts) := by
    generalize hs : byte '{' :: ts = s
    rintro (_ | b | ⟨valid, _⟩ | _)
    · rw [Text.bytes_eq] at hs
      exact absurd (List.cons.inj hs).1 (by decide)
    · cases b <;> rw [Text.bytes_eq] at hs <;> exact absurd (List.cons.inj hs).1 (by decide)
    · obtain ⟨b, bs, hb, hwhole⟩ := valid.whole.exists_cons
      rw [hwhole] at hs
      split at hs
      · exact absurd (List.cons.inj hs).1 (by decide)
      · exact absurd (List.cons.inj hs).1 (ne_of_isDigit hb (by decide)).symm
    · exact absurd (List.cons.inj hs).1 (by decide)
  cases depth with
  | zero => exact absurd h hscalar
  | succ depth =>
      obtain h | ⟨us, vs, hs, -⟩ | ⟨us, ms, hs, hbody, -⟩ := h
      · exact absurd h hscalar
      · exact absurd (List.cons.inj hs).1 (by decide)
      · rw [(List.cons.inj hs).2]
        exact ⟨depth, ms, hbody⟩

/-- A document that is read is a value of the syntax between blanks. -/
theorem form_of_read {document : Bytes} {v : Json} (h : read .value document = .ok v) :
    ∃ w u w', Spaces w ∧ Form maxDepth u ∧ Spaces w' ∧ document = w ++ (u ++ w') := by
  obtain ⟨rest, ⟨hshort, hread⟩, hrest⟩ := read_eq_ok_iff.mp h
  obtain ⟨w, u, hw, hform, heq⟩ := accepts_value maxDepth hread
  exact ⟨w, u, rest, hw, hform, hrest, heq⟩

/-- A text in braces that is read as a value is one object. -/
theorem isObject_of_readText {t : String} (hbraces : Text.InBraces t) {v : Json}
    (h : readText .value t = .ok v) : IsObject t := by
  obtain ⟨w, u, w', hw, hform, hw', heq⟩ := form_of_read h
  obtain ⟨hopen, hclose⟩ := Text.inBraces_iff_bytes.mp hbraces
  obtain ⟨bs, hhead⟩ := List.head?_eq_some_iff.mp hopen
  -- The braces are no blanks, so there are none around the value.
  have hafter : w' = [] := by
    by_contra hne
    rw [heq, ← List.append_assoc, List.getLast?_append_of_ne_nil _ hne] at hclose
    exact absurd (hw' _ (List.mem_of_getLast? hclose)) (by decide)
  have hbefore : w = [] := by
    cases w with
    | nil => rfl
    | cons b w =>
        rw [hhead, List.cons_append] at heq
        have hspace := hw b List.mem_cons_self
        rw [← (List.cons.inj heq).1] at hspace
        exact absurd hspace (by decide)
  rw [hafter, hbefore, List.append_nil, List.nil_append, hhead] at heq
  rw [← heq] at hform
  obtain ⟨depth, hbody⟩ := objectForm_of_form hform
  exact ⟨depth, bs, hbody, hhead⟩

end CodeReview.Json
