import CodeReview.Json.Reader
import CodeReview.Proofs.Json.Grammar

/-!
Values are read from the texts that write them, whatever stands before and after: blanks in front
are passed over, and what follows is left. Lists and objects are read part by part.
-/

namespace CodeReview

namespace Assoc

theorem put_of_notMem {key : String} {value : α} {entries : List (String × α)}
    (h : key ∉ entries.map Prod.fst) : put key value entries = entries ++ [(key, value)] := by
  induction entries with
  | nil => rfl
  | cons entry entries ih =>
      obtain ⟨k, v⟩ := entry
      rw [List.map_cons, List.mem_cons, not_or] at h
      rw [put, if_neg (Ne.symm h.1), ih h.2]
      rfl

/-- Entries under different keys stay as they come. -/
theorem foldl_put {entries more : List (String × α)}
    (h : ((entries ++ more).map Prod.fst).Nodup) :
    more.foldl (fun es e => put e.1 e.2 es) entries = entries ++ more := by
  induction more generalizing entries with
  | nil => exact (List.append_nil entries).symm
  | cons entry more ih =>
      have hnew : entry.1 ∉ entries.map Prod.fst := by
        rw [List.map_append, List.map_cons, List.nodup_append] at h
        exact fun hmem => h.2.2 _ hmem _ List.mem_cons_self rfl
      rw [List.foldl_cons, put_of_notMem hnew, ih]
      · rw [List.append_assoc]
        rfl
      · rw [List.append_assoc]
        exact h

end Assoc

namespace Json

/-- The text is read as the value, after blanks and before anything that ends it. -/
def Takes (read : (s : Bytes) → Except Fault (Parsed α s)) (t : Bytes) (a : α) : Prop :=
  ∀ w rest, Spaces w → Ends rest → Yields (read (w ++ (t ++ rest))) a rest

/-- The text shows something, and it is not the end of a list. -/
def Starts (t : Bytes) : Prop :=
  ∃ b rest, t = b :: rest ∧ isSpace b = false ∧ b ≠ byte ']'

/-! ### What may follow -/

theorem ends_nil : Ends [] where
  noDigit := nofun
  noPoint := nofun
  noExponent := ⟨nofun, nofun⟩

theorem ends_of_ne {b : UInt8} {rest : Bytes}
    (h : isDigit b = false ∧ b ≠ byte '.' ∧ b ≠ byte 'e' ∧ b ≠ byte 'E') : Ends (b :: rest) where
  noDigit := by
    rintro c ⟨⟩
    exact h.1
  noPoint := fun hc => h.2.1 (Option.some.inj hc)
  noExponent := ⟨fun hc => h.2.2.1 (Option.some.inj hc), fun hc => h.2.2.2 (Option.some.inj hc)⟩

theorem ends_of_isSpace {b : UInt8} {rest : Bytes} (h : isSpace b = true) : Ends (b :: rest) := by
  simp only [isSpace, Bool.or_eq_true, decide_eq_true_iff] at h
  rcases h with ((rfl | rfl) | rfl) | rfl <;> exact ends_of_ne (by decide)

theorem ends_append {w rest : Bytes} (hw : Spaces w) (h : Ends rest) : Ends (w ++ rest) := by
  cases w with
  | nil => exact h
  | cons b w => exact ends_of_isSpace (hw b List.mem_cons_self)

/-! ### Heads -/

theorem ne_of_isDigit {b c : UInt8} (hb : isDigit b = true) (hc : isDigit c = false) : b ≠ c := by
  rintro rfl
  rw [hb] at hc
  cases hc

theorem isSpace_of_isDigit {b : UInt8} (hb : isDigit b = true) : isSpace b = false := by
  cases h : isSpace b with
  | false => rfl
  | true =>
      simp only [isSpace, Bool.or_eq_true, decide_eq_true_iff] at h
      rcases h with ((rfl | rfl) | rfl) | rfl <;> exact absurd rfl (ne_of_isDigit hb (by decide))

theorem starts_cons {b : UInt8} {rest : Bytes} (hb : isSpace b = false ∧ b ≠ byte ']') :
    Starts (b :: rest) :=
  ⟨b, rest, rfl, hb⟩

theorem starts_number (negative : Bool) {b : UInt8} (hb : isDigit b = true) (s : Bytes) :
    Starts ((if negative then [byte '-'] else []) ++ b :: s) := by
  cases negative with
  | true => exact starts_cons (by decide)
  | false => exact starts_cons ⟨isSpace_of_isDigit hb, ne_of_isDigit hb (by decide)⟩

theorem starts_scalarForm {t : Bytes} (h : ScalarForm t) : Starts t := by
  cases h with
  | null => rw [Text.bytes_eq]; exact starts_cons (by decide)
  | bool b => cases b <;> rw [Text.bytes_eq] <;> exact starts_cons (by decide)
  | @number n t valid exponent =>
      obtain ⟨b, bs, hb, hwhole⟩ := valid.whole.exists_cons
      rw [hwhole]
      exact starts_number n.negative hb _
  | text h => exact starts_cons (by decide)

theorem starts_of_ne_null {t : Bytes} (h : ScalarForm t) (hne : t ≠ Text.bytes "null") :
    ∃ b bs, t = b :: bs ∧ isSpace b = false ∧ b ≠ byte 'n' := by
  cases h with
  | null => exact absurd rfl hne
  | bool b => cases b <;> rw [Text.bytes_eq] <;> exact ⟨_, _, rfl, by decide⟩
  | @number n t valid exponent =>
      obtain ⟨b, bs, hb, hwhole⟩ := valid.whole.exists_cons
      rw [hwhole]
      cases n.negative with
      | true => exact ⟨_, _, rfl, by decide⟩
      | false => exact ⟨_, _, rfl, isSpace_of_isDigit hb, ne_of_isDigit hb (by decide)⟩
  | text h => exact ⟨_, _, rfl, by decide⟩

/-- A whole value that is no container was found, and this is left. -/
def Finds {s : Bytes} (r : Except Fault (Head α s)) (a : α) (rest : Bytes) : Prop :=
  ∃ h, r = .ok (.scalar ⟨a, rest, h⟩)

namespace Leaves

variable {leaves : Leaves α} {w rest : Bytes} (hw : Spaces w)

/-- The words, by their first letters. -/
def words (leaves : Leaves α) : List (UInt8 × Bytes × α) :=
  [(byte 'n', [byte 'u', byte 'l', byte 'l'], leaves.null),
   (byte 't', [byte 'r', byte 'u', byte 'e'], leaves.bool true),
   (byte 'f', [byte 'a', byte 'l', byte 's', byte 'e'], leaves.bool false)]

include hw

theorem head_word {b : UInt8} {letters : Bytes} {a : α} (h : (b, letters, a) ∈ leaves.words) :
    Finds (leaves.head (w ++ b :: (letters ++ rest))) a rest := by
  have hb : isSpace b = false := by
    simp only [words, List.mem_cons, List.not_mem_nil, or_false, Prod.mk.injEq] at h
    rcases h with ⟨rfl, -, -⟩ | ⟨rfl, -, -⟩ | ⟨rfl, -, -⟩ <;> decide
  obtain ⟨hl, hword⟩ := word_append letters rest
  obtain ⟨hshort, hnext⟩ := next_append (letters ++ rest) hw hb
  refine ⟨Nat.lt_of_le_of_lt hl hshort, ?_⟩
  rw [head, hnext]
  simp only [words, List.mem_cons, List.not_mem_nil, or_false, Prod.mk.injEq] at h
  rcases h with ⟨rfl, rfl, rfl⟩ | ⟨rfl, rfl, rfl⟩ | ⟨rfl, rfl, rfl⟩
  · simp only [if_true, hword, bind, Except.bind, pure, Except.pure]
  · simp only [if_true, hword, bind, Except.bind, pure, Except.pure]
    rfl
  · simp only [if_true, hword, bind, Except.bind, pure, Except.pure]
    rfl

theorem head_null : Finds (leaves.head (w ++ (Text.bytes "null" ++ rest))) leaves.null rest := by
  rw [show Text.bytes "null" = byte 'n' :: [byte 'u', byte 'l', byte 'l'] from Text.bytes_eq _]
  exact head_word hw (by simp [words])

theorem head_bool (b : Bool) :
    Finds (leaves.head (w ++ (Text.bytes (if b then "true" else "false") ++ rest)))
      (leaves.bool b) rest := by
  cases b with
  | true =>
      rw [show Text.bytes (if true then "true" else "false") =
        byte 't' :: [byte 'r', byte 'u', byte 'e'] from Text.bytes_eq _]
      exact head_word hw (by simp [words])
  | false =>
      rw [show Text.bytes (if false then "true" else "false") =
        byte 'f' :: [byte 'a', byte 'l', byte 's', byte 'e'] from Text.bytes_eq _]
      exact head_word hw (by simp [words])

theorem head_negative (s : Bytes) :
    ∃ h, leaves.head (w ++ byte '-' :: s) =
      (leaves.number true s).map fun p => .scalar (p.widen h) := by
  obtain ⟨hshort, hnext⟩ :=
    next_append s hw (show isSpace (byte '-') = false by decide)
  refine ⟨Nat.le_of_lt hshort, ?_⟩
  rw [head, hnext]
  rfl

theorem head_digit {b : UInt8} (hb : isDigit b = true) (s : Bytes) :
    ∃ h, leaves.head (w ++ b :: s) =
      (leaves.number false (b :: s)).map fun p => .scalar (p.widen h) := by
  have hne {c : UInt8} := ne_of_isDigit hb (c := c)
  obtain ⟨hshort, hnext⟩ := next_append s hw (isSpace_of_isDigit hb)
  refine ⟨hshort, ?_⟩
  rw [head, hnext]
  simp only [if_neg (hne (c := byte 'n') (by decide)), if_neg (hne (c := byte 't') (by decide)),
    if_neg (hne (c := byte 'f') (by decide)), if_neg (hne (c := byte '-') (by decide)), hb,
    if_true]
  rfl

/-- The first byte of a numeral tells that it is a number. -/
theorem head_number (negative : Bool) {b : UInt8} (hb : isDigit b = true) (s : Bytes) :
    ∃ h, leaves.head (w ++ ((if negative then [byte '-'] else []) ++ b :: s)) =
      (leaves.number negative (b :: s)).map fun p => .scalar (p.widen h) := by
  cases negative with
  | true => exact head_negative hw (b :: s)
  | false => exact head_digit hw hb s

theorem head_numeral {n : Numeral} (valid : n.Valid) {t : Bytes} {a : α}
    (h : Yields (leaves.number n.negative (n.whole ++ (n.fractionText ++ (t ++ rest)))) a rest) :
    Finds
      (leaves.head (w ++ ((if n.negative then [byte '-'] else []) ++
        (n.whole ++ (n.fractionText ++ t)) ++ rest)))
      a rest := by
  obtain ⟨b, bs, hb, hwhole⟩ := valid.whole.exists_cons
  have htext : (if n.negative then [byte '-'] else []) ++ (n.whole ++ (n.fractionText ++ t)) ++
      rest = (if n.negative then [byte '-'] else []) ++
        b :: (bs ++ (n.fractionText ++ (t ++ rest))) := by
    rw [hwhole]
    simp only [List.append_assoc, List.cons_append]
  rw [hwhole, List.cons_append] at h
  obtain ⟨hread, hnumber⟩ := h
  obtain ⟨hlonger, hhead⟩ := leaves.head_number hw n.negative hb
    (bs ++ (n.fractionText ++ (t ++ rest)))
  rw [htext, Finds, hhead, hnumber]
  exact ⟨_, rfl⟩

theorem head_text {a : α} {s : Bytes} (h : Yields (leaves.text s) a rest) :
    Finds (leaves.head (w ++ byte '"' :: s)) a rest := by
  obtain ⟨hrest, htext⟩ := h
  obtain ⟨hshort, hnext⟩ :=
    next_append s hw (show isSpace (byte '"') = false by decide)
  refine ⟨Nat.lt_trans hrest hshort, ?_⟩
  rw [head, hnext]
  simp only [htext, bind, Except.bind, pure, Except.pure]
  rfl

variable (leaves) in
theorem head_list (s : Bytes) :
    ∃ h, leaves.head (w ++ byte '[' :: s) = .ok (.container .list ⟨(), s, h⟩) := by
  obtain ⟨hshort, hnext⟩ :=
    next_append s hw (show isSpace (byte '[') = false by decide)
  refine ⟨hshort, ?_⟩
  rw [head, hnext]
  rfl

variable (leaves) in
theorem head_object (s : Bytes) :
    ∃ h, leaves.head (w ++ byte '{' :: s) = .ok (.container .object ⟨(), s, h⟩) := by
  obtain ⟨hshort, hnext⟩ :=
    next_append s hw (show isSpace (byte '{') = false by decide)
  refine ⟨hshort, ?_⟩
  rw [head, hnext]
  rfl

end Leaves

/-! ### Lists -/

theorem ends_comma {rest : Bytes} : Ends (byte ',' :: rest) := ends_of_ne (by decide)

theorem ends_listEnd {rest : Bytes} : Ends (byte ']' :: rest) := ends_of_ne (by decide)

theorem ends_objectEnd {rest : Bytes} : Ends (byte '}' :: rest) := ends_of_ne (by decide)

theorem within_ok {place : Place} {a : α} : within place (.ok a) = .ok a := rfl

section Items

variable {read : (s : Bytes) → Except Fault (Parsed α s)} {item : Bytes → α → Prop}

/-- What stands after a comma or an opening bracket is an item. -/
theorem ListText.next {ts : Bytes} {as : List α} (h : ListText item ts as)
    (hstarts : ∀ {t a}, item t a → Starts t) (rest : Bytes) :
    ∃ b us hshort, next (ts ++ rest) = some ⟨b, us, hshort⟩ ∧ b ≠ byte ']' := by
  obtain ⟨w, t, us, a, hw, ht, rfl⟩ : ∃ w t us a, Spaces w ∧ item t a ∧ ts = w ++ (t ++ us) := by
    cases h with
    | last before value after => exact ⟨_, _, _, _, before, value, rfl⟩
    | more before value after rest => exact ⟨_, _, _, _, before, value, rfl⟩
  obtain ⟨b, t, rfl, hb, hend⟩ := hstarts ht
  rw [List.append_assoc]
  obtain ⟨hshort, hnext⟩ := next_append (t ++ us ++ rest) hw hb
  exact ⟨b, t ++ us ++ rest, hshort, hnext, hend⟩

/-- The items are read one after the other, up to the bracket that closes the list. -/
theorem items_text (htakes : ∀ {t a}, item t a → Takes read t a)
    (hstarts : ∀ {t a}, item t a → Starts t) {ts : Bytes} {as : List α} (h : ListText item ts as)
    (start rest s : Bytes) (n : Nat) (done : List α) (hs : s = ts ++ rest)
    (hshort : s.length < start.length) :
    Yields (items read start s hshort n done) (done.reverse ++ as) rest := by
  induction h generalizing s n done with
  | @last w t w' a before value after =>
      obtain rfl : s = w ++ (t ++ (w' ++ byte ']' :: rest)) := by simp [hs]
      obtain ⟨h₁, hitem⟩ := htakes value w (w' ++ byte ']' :: rest) before
        (ends_append after ends_listEnd)
      obtain ⟨h₂, hnext⟩ := next_append rest after
        (show isSpace (byte ']') = false by decide)
      refine ⟨by omega, ?_⟩
      rw [items]
      simp only [hitem, within_ok, bind, Except.bind, hnext, if_true, List.reverse_cons]
  | @more w t w' ts a as before value after hts ih =>
      obtain rfl : s = w ++ (t ++ (w' ++ byte ',' :: (ts ++ rest))) := by simp [hs]
      obtain ⟨h₁, hitem⟩ := htakes value w (w' ++ byte ',' :: (ts ++ rest)) before
        (ends_append after ends_comma)
      obtain ⟨h₂, hnext⟩ := next_append (ts ++ rest) after
        (show isSpace (byte ',') = false by decide)
      obtain ⟨b, us, h₃, hpeek, hend⟩ := hts.next hstarts rest
      obtain ⟨h₄, hloop⟩ := ih (ts ++ rest) (n + 1) (a :: done) rfl (by omega)
      refine ⟨h₄, ?_⟩
      rw [items]
      have hcomma : byte ',' ≠ byte ']' := by decide
      simp only [hitem, within_ok, bind, Except.bind, hnext, hcomma, hpeek, hend, if_true, if_false,
        hloop, List.reverse_cons, List.append_assoc, List.singleton_append]

/-- A list after its opening bracket. -/
theorem itemsFrom_body (htakes : ∀ {t a}, item t a → Takes read t a)
    (hstarts : ∀ {t a}, item t a → Starts t) {ts : Bytes} {as : List α} (h : ListBody item ts as)
    {s rest : Bytes} (hshort : (ts ++ rest).length < s.length) :
    Yields (itemsFrom read (s := s) ⟨(), ts ++ rest, hshort⟩) as rest := by
  cases h with
  | @empty w blank =>
      generalize hu : w ++ [byte ']'] ++ rest = u at hshort ⊢
      obtain rfl : u = w ++ byte ']' :: rest := by simp [← hu]
      obtain ⟨h, hnext⟩ := next_append rest blank (show isSpace (byte ']') = false by decide)
      refine ⟨by omega, ?_⟩
      rw [itemsFrom]
      simp only [hnext, if_true]
  | items h =>
      obtain ⟨b, us, hnext, hpeek, hend⟩ := h.next hstarts rest
      rw [itemsFrom]
      simp only [hpeek, hend, if_false]
      exact items_text htakes hstarts h s rest _ 0 [] rfl hshort

end Items

/-! ### Objects -/

/-- A member is read after its name, and changes the state. -/
def TakesMember (member : String → σ → (s : Bytes) → Except Fault (Parsed σ s)) (k : String)
    (t : Bytes) (state state' : σ) : Prop :=
  ∀ w₁ w₂ rest, Spaces w₁ → Spaces w₂ → Ends rest →
    Yields (member k state (w₁ ++ byte ':' :: (w₂ ++ (t ++ rest)))) state' rest

/-- The members are read one after the other, and each of them changes the state. -/
inductive MembersRun (member : String → σ → (s : Bytes) → Except Fault (Parsed σ s))
    (value : String → Bytes → α → Prop) : σ → List (String × α) → σ → Prop where
  | nil (state : σ) : MembersRun member value state [] state
  | cons {state state' state'' : σ} {k : String} {a : α} {ms : List (String × α)}
    (first : ∀ t, value k t a → TakesMember member k t state state')
    (rest : MembersRun member value state' ms state'') :
    MembersRun member value state ((k, a) :: ms) state''

theorem colon_append {w : Bytes} (hw : Spaces w) (rest : Bytes) :
    Yields (colon (w ++ byte ':' :: rest)) () rest := by
  obtain ⟨h, hnext⟩ := next_append rest hw (show isSpace (byte ':') = false by decide)
  refine ⟨h, ?_⟩
  rw [colon, hnext]
  rfl

theorem memberValue_text {read : (s : Bytes) → Except Fault (Parsed α s)} {t : Bytes} {a : α}
    (h : Takes read t a) (k : String) {w₁ w₂ rest : Bytes} (h₁ : Spaces w₁) (h₂ : Spaces w₂)
    (hrest : Ends rest) :
    Yields (memberValue k read (w₁ ++ byte ':' :: (w₂ ++ (t ++ rest)))) a rest := by
  obtain ⟨hcolon, hc⟩ := colon_append h₁ (w₂ ++ (t ++ rest))
  obtain ⟨hvalue, hv⟩ := h w₂ rest h₂ hrest
  refine ⟨by omega, ?_⟩
  simp only [memberValue, hc, hv, within_ok, bind, Except.bind, Parsed.widen]

section Members

variable {member : String → σ → (s : Bytes) → Except Fault (Parsed σ s)}
  {value : String → Bytes → α → Prop}

theorem members_text {ts : Bytes} {ms : List (String × α)} (h : MembersText Spells value ts ms)
    {state state' : σ} (hrun : MembersRun member value state ms state') (start rest s : Bytes)
    (hs : s = ts ++ rest) (hshort : s.length < start.length) :
    Yields (members member start s hshort state) state' rest := by
  induction h generalizing s state with
  | @last k n t w₁ w₂ w₃ a named hcolon before written after =>
      obtain rfl : s = n ++ (w₁ ++ byte ':' :: (w₂ ++ (t ++ (w₃ ++ byte '}' :: rest)))) := by
        simp [hs]
      obtain _ | ⟨hfirst, hlater⟩ := hrun
      cases hlater
      obtain ⟨h₁, hname⟩ :=
        scanText_spelled named (w₁ ++ byte ':' :: (w₂ ++ (t ++ (w₃ ++ byte '}' :: rest))))
      obtain ⟨h₂, hmember⟩ := hfirst t written w₁ w₂ (w₃ ++ byte '}' :: rest) hcolon before
        (ends_append after ends_objectEnd)
      obtain ⟨h₃, hnext⟩ := next_append rest after
        (show isSpace (byte '}') = false by decide)
      refine ⟨by omega, ?_⟩
      rw [members]
      simp only [hname, hmember, bind, Except.bind, hnext, if_true]
  | @more k n t w₁ w₂ w₃ w₄ ts a ms named hcolon before written after mark hts ih =>
      obtain rfl : s = n ++ (w₁ ++ byte ':' ::
          (w₂ ++ (t ++ (w₃ ++ byte ',' :: (w₄ ++ byte '"' :: (ts ++ rest)))))) := by
        simp [hs]
      obtain _ | ⟨hfirst, hlater⟩ := hrun
      obtain ⟨h₁, hname⟩ := scanText_spelled named
        (w₁ ++ byte ':' :: (w₂ ++ (t ++ (w₃ ++ byte ',' :: (w₄ ++ byte '"' :: (ts ++ rest))))))
      obtain ⟨h₂, hmember⟩ := hfirst t written w₁ w₂
        (w₃ ++ byte ',' :: (w₄ ++ byte '"' :: (ts ++ rest))) hcolon before
        (ends_append after ends_comma)
      obtain ⟨h₃, hnext⟩ := next_append (w₄ ++ byte '"' :: (ts ++ rest)) after
        (show isSpace (byte ',') = false by decide)
      obtain ⟨h₄, hmark⟩ := next_append (ts ++ rest) mark
        (show isSpace (byte '"') = false by decide)
      obtain ⟨h₅, hloop⟩ := ih hlater (ts ++ rest) rfl (by omega)
      refine ⟨h₅, ?_⟩
      rw [members]
      have hcomma : byte ',' ≠ byte '}' := by decide
      simp only [hname, hmember, bind, Except.bind, hnext, hcomma, hmark, if_true, if_false, hloop]

/-- An object after its opening bracket. -/
theorem membersFrom_body {ts : Bytes} {ms : List (String × α)} (h : ObjectBody Spells value ts ms)
    {state state' : σ} (hrun : MembersRun member value state ms state') {s rest : Bytes}
    (hshort : (ts ++ rest).length < s.length) :
    Yields (membersFrom member (s := s) state ⟨(), ts ++ rest, hshort⟩) state' rest := by
  cases h with
  | @empty w blank =>
      generalize hu : w ++ [byte '}'] ++ rest = u at hshort ⊢
      obtain rfl : u = w ++ byte '}' :: rest := by simp [← hu]
      obtain ⟨h, hnext⟩ := next_append rest blank (show isSpace (byte '}') = false by decide)
      cases hrun
      refine ⟨by omega, ?_⟩
      rw [membersFrom]
      simp only [hnext, if_true]
  | @members w ts ms blank h =>
      generalize hu : w ++ byte '"' :: ts ++ rest = u at hshort ⊢
      obtain rfl : u = w ++ byte '"' :: (ts ++ rest) := by simp [← hu]
      obtain ⟨hquote, hnext⟩ := next_append (ts ++ rest) blank
        (show isSpace (byte '"') = false by decide)
      have hmark : byte '"' ≠ byte '}' := by decide
      rw [membersFrom]
      simp only [hnext, hmark, if_false, if_true]
      exact members_text h hrun s rest _ rfl _

end Members

/-! ### Values of any kind -/

/-- The text is found as this value without parts, wherever it stands. -/
def Shows (t : Bytes) (a : Scalar) : Prop :=
  ∀ w rest, Spaces w → Ends rest → Finds (head (w ++ (t ++ rest))) a rest

theorem shows_text {t : Bytes} {s : String} (h : Spells t s) : Shows (byte '"' :: t) (.text s) :=
  fun _ rest hw _ => Leaves.head_text hw ((scanText_spelled h rest).map Scalar.text)

namespace Reader

theorem takes_scalar {t : Bytes} {a : Scalar} (h : Shows t a) (depth : Nat) :
    Takes (value depth) t (value.scalar a) := by
  intro w rest hw hrest
  obtain ⟨hshort, hhead⟩ := h w rest hw hrest
  refine ⟨hshort, ?_⟩
  cases depth <;> simp only [value, hhead, bind, Except.bind] <;> rfl

theorem value_error {depth : Nat} {s : Bytes} {f : Fault} (h : head s = .error f) :
    value depth s = .error f := by
  cases depth <;> simp only [value, h, bind, Except.bind]

theorem takes_text {t : Bytes} {s : String} (h : Spells t s) (depth : Nat) :
    Takes (value depth) (byte '"' :: t) (.text s) :=
  takes_scalar (shows_text h) depth

theorem head_signed {n : Numeral} (hvalid : n.Valid) (rest : Bytes) {w : Bytes} (hw : Spaces w) :
    ∃ h, head (w ++ (n.signed ++ rest)) =
      ((scanNumber n.negative (n.text ++ rest)).map (Parsed.map Scalar.number)).map
        fun p => .scalar (p.widen h) := by
  obtain ⟨b, bs, hb, hwhole⟩ := hvalid.whole.exists_cons
  have htext : n.text ++ rest = b :: (bs ++ (n.fractionText ++ n.exponentText) ++ rest) := by
    rw [Numeral.text, hwhole]
    rfl
  rw [n.signed_eq, List.append_assoc, htext]
  exact scalarLeaves.head_number hw n.negative hb _

theorem takes_number {n : Numeral} (hvalid : n.Valid) {v : Number} (hv : n.value = .ok v)
    (depth : Nat) : Takes (value depth) n.signed (.number v) := by
  apply takes_scalar (a := .number v)
  intro w rest hw hrest
  obtain ⟨hshort, hhead⟩ := head_signed hvalid rest hw
  obtain ⟨hread, hscan⟩ := (scanNumber_text hvalid hv hrest).map Scalar.number
  rw [hscan] at hhead
  exact ⟨_, hhead⟩

theorem takes_null (depth : Nat) : Takes (value depth) (Text.bytes "null") .null :=
  takes_scalar (fun _ _ hw _ => scalarLeaves.head_null hw) depth

theorem takes_bool (b : Bool) (depth : Nat) :
    Takes (value depth) (Text.bytes (if b then "true" else "false")) (.bool b) :=
  takes_scalar (fun _ _ hw _ => scalarLeaves.head_bool hw b) depth

theorem value_list {depth : Nat} {s : Bytes} {p : Parsed Unit s}
    (h : head s = .ok (.container .list p)) :
    value (depth + 1) s = (itemsFrom (value depth) p).map (Parsed.map .list) := by
  rw [value, h]
  rfl

/-- One more member of an object is read, and its value is put under its name. -/
def gather (put : String → α → σ → σ) (read : (s : Bytes) → Except Fault (Parsed α s))
    (name : String) (state : σ) (s : Bytes) : Except Fault (Parsed σ s) :=
  (memberValue name read s).map fun p => p.map fun a => put name a state

theorem value_object {depth : Nat} {s : Bytes} {p : Parsed Unit s}
    (h : head s = .ok (.container .object p)) :
    value (depth + 1) s =
      (membersFrom (gather Assoc.put (value depth)) [] p).map (Parsed.map .object) := by
  rw [value, h]
  rfl

theorem membersRun_gather (put : String → α → σ → σ)
    {read : (s : Bytes) → Except Fault (Parsed α s)} (state : σ) (ms : List (String × α)) :
    MembersRun (gather put read) (fun _ => Takes read) state ms
      (ms.foldl (fun state m => put m.1 m.2 state) state) := by
  induction ms generalizing state with
  | nil => exact .nil state
  | cons m ms ih =>
      refine .cons (fun t h w₁ w₂ rest h₁ h₂ hrest => ?_) (ih _)
      exact (memberValue_text h m.1 h₁ h₂ hrest).map fun a => put m.1 a state

theorem takes_list {depth : Nat} {ts : Bytes} {vs : List Json}
    (h : ListBody (fun t v => Takes (value depth) t v ∧ Starts t) ts vs) :
    Takes (value (depth + 1)) (byte '[' :: ts) (.list vs) := by
  intro w rest hw _
  obtain ⟨hopen, hhead⟩ := scalarLeaves.head_list hw (ts ++ rest)
  rw [List.cons_append, value_list hhead]
  exact (itemsFrom_body And.left And.right h hopen).map Json.list

theorem takes_object {depth : Nat} {ts : Bytes} {ms : List (String × Json)}
    (h : ObjectBody Spells (fun _ => Takes (value depth)) ts ms)
    (hnames : (ms.map Prod.fst).Nodup) :
    Takes (value (depth + 1)) (byte '{' :: ts) (.object ms) := by
  intro w rest hw _
  obtain ⟨hopen, hhead⟩ := scalarLeaves.head_object hw (ts ++ rest)
  rw [List.cons_append, value_object hhead]
  have hread := (membersFrom_body h (membersRun_gather Assoc.put [] ms) hopen).map Json.object
  rw [Assoc.foldl_put (show (([] ++ ms).map Prod.fst).Nodup from hnames)] at hread
  exact hread

end Reader

/-! ### Documents -/

section Meant

variable {number : Bytes → Json → Prop}
  (hnumber : ∀ t v, number t v → ∀ depth, Takes (Reader.value depth) t v ∧ Starts t)
include hnumber

theorem takes_scalarMeant {t : Bytes} {v : Json} (h : ScalarMeant number t v) (depth : Nat) :
    Takes (Reader.value depth) t v ∧ Starts t := by
  cases h with
  | null => exact ⟨Reader.takes_null depth, by rw [Text.bytes_eq]; exact starts_cons (by decide)⟩
  | bool b =>
      refine ⟨Reader.takes_bool b depth, ?_⟩
      cases b <;> rw [Text.bytes_eq] <;> exact starts_cons (by decide)
  | number h => exact hnumber _ _ h depth
  | text h => exact ⟨Reader.takes_text h depth, starts_cons (by decide)⟩

/-- A text is read as the value that it stands for. -/
theorem takes_meant {depth : Nat} {t : Bytes} {v : Json}
    (h : (Grammar.meant number).Derives depth t v) :
    Takes (Reader.value depth) t v ∧ Starts t := by
  induction depth generalizing t v with
  | zero => exact takes_scalarMeant hnumber h 0
  | succ depth ih =>
      obtain h | ⟨ts, vs, rfl, hbody, rfl⟩ | ⟨ts, ms, rfl, hbody, hnames, rfl⟩ := h
      · exact takes_scalarMeant hnumber h (depth + 1)
      · exact ⟨Reader.takes_list (hbody.mono fun _ _ _ => ih), starts_cons (by decide)⟩
      · exact ⟨Reader.takes_object (hbody.mono fun _ _ _ h => (ih h).1) hnames,
          starts_cons (by decide)⟩

end Meant

theorem readStart_eq_ok_iff {r : Reader α} {document : Bytes} {a : α} :
    readStart r document = .ok a ↔ ∃ rest, Yields (r maxDepth document) a rest := by
  rw [readStart]
  cases h : r maxDepth document with
  | error e => simp [Except.map, Except.mapError, Yields]
  | ok p =>
      obtain ⟨b, rest, hshort⟩ := p
      constructor
      · rintro ⟨⟩
        exact ⟨rest, hshort, rfl⟩
      · rintro ⟨_, _, ⟨⟩⟩
        rfl

/-- A whole document has nothing but blanks after its value. -/
theorem read_eq_ok_iff {r : Reader α} {document : Bytes} {a : α} :
    read r document = .ok a ↔ ∃ rest, Yields (r maxDepth document) a rest ∧ Spaces rest := by
  rw [read]
  cases h : r maxDepth document with
  | error e => simp [Except.mapError, Yields, bind, Except.bind]
  | ok p =>
      obtain ⟨b, rest, hshort⟩ := p
      simp only [bind, Except.bind]
      cases hnext : next rest with
      | none =>
          constructor
          · rintro ⟨⟩
            exact ⟨rest, ⟨hshort, rfl⟩, next_eq_none_iff.mp hnext⟩
          · rintro ⟨_, ⟨_, ⟨⟩⟩, _⟩
            rfl
      | some q =>
          simp only [Except.mapError, reduceCtorEq, false_iff]
          rintro ⟨_, ⟨_, ⟨⟩⟩, hspaces⟩
          rw [next_eq_none_iff.mpr hspaces] at hnext
          cases hnext

/-- A text that is read as a value wherever it stands is read as that value when it is the whole
document. -/
theorem readText_of_takes {r : Reader α} {t : String} {a : α}
    (h : Takes (r maxDepth) (Text.bytes t) a) : readText r t = .ok a := by
  have hread := h [] [] spaces_nil ends_nil
  rw [List.nil_append, List.append_nil] at hread
  exact read_eq_ok_iff.mpr ⟨[], hread, spaces_nil⟩

/-- A document that is a numeral is read as the number that it writes, and not at all when there is
no such number. -/
theorem value_of_readText {n : Numeral} (hvalid : n.Valid) {t : String}
    (ht : Text.bytes t = n.signed) {v : Json} (h : readText .value t = .ok v) :
    ∃ a, n.value = .ok a ∧ v = .number a := by
  cases hvalue : n.value with
  | ok a =>
      have htakes := Reader.takes_number hvalid hvalue maxDepth
      rw [← ht] at htakes
      have hread := readText_of_takes htakes
      rw [h] at hread
      exact ⟨a, rfl, Except.ok.inj hread⟩
  | error left =>
      obtain ⟨rest, hyields, -⟩ := read_eq_ok_iff.mp h
      rw [ht] at hyields
      obtain ⟨hshort, hread⟩ := hyields
      obtain ⟨hlonger, hhead⟩ := Reader.head_signed hvalid [] spaces_nil
      obtain ⟨htext, hscan⟩ := Numeral.scanNumeral_text .endOfValue hvalid ends_nil
      simp only [scanNumber, hscan, hvalue, bind, Except.bind, Except.map] at hhead
      have hfault : ∃ f, head ([] ++ (n.signed ++ [])) = .error f := ⟨_, hhead⟩
      rw [List.nil_append, List.append_nil] at hfault
      obtain ⟨f, hf⟩ := hfault
      rw [Reader.value_error hf] at hread
      cases hread

end Json

end CodeReview
