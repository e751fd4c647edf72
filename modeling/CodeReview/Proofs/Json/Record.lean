import CodeReview.Json.Record
import CodeReview.Proofs.Json.Encoding

/-!
Readers of one kind of value take what such a value is encoded as, in any encoding. A record is
taken from an object whose members are, in any order, those of the record and others that are only
passed over.
-/

namespace CodeReview.Json

theorem Takes.map {read : (s : Bytes) → Except Fault (Parsed α s)} {t : Bytes} {a : α}
    (h : Takes read t a) (f : α → β) : Takes (fun s => (read s).map (Parsed.map f)) t (f a) :=
  fun w rest hw hrest => (h w rest hw hrest).map f

/-! ### Numbers -/

theorem scalar_eq_number {a : Scalar} {n : Number} (h : Reader.value.scalar a = .number n) :
    a = .number n := by
  cases a <;> cases h
  rfl

/-- A number that is kept is found as the number that it is. -/
theorem shows_number {n : Number} (h : n.Kept) : Shows (Text.bytes n.render) (.number n) := by
  intro w rest hw hrest
  have hvalue := h.legible.takes 0 w rest hw hrest
  rw [h.same] at hvalue
  obtain ⟨hshort, hread⟩ := hvalue
  obtain ⟨r, hr, hread⟩ := ok_of_bind hread
  rw [Finds, hr]
  cases r with
  | container c p => cases hread
  | scalar p =>
      obtain ⟨a, rest', hp⟩ := p
      have hparts := Except.ok.inj hread
      obtain rfl : a = .number n := scalar_eq_number (congrArg Parsed.value hparts)
      obtain rfl : rest' = rest := congrArg Parsed.rest hparts
      exact ⟨hp, rfl⟩

/-! ### Readers of values without parts -/

namespace Reader

variable {depth : Nat}

theorem takes_spelled {u : Bytes} {s : String} (h : Spells u s) :
    Takes (text depth) (byte '"' :: u) s := by
  intro w rest hw hrest
  obtain ⟨hshort, hhead⟩ := shows_text h w rest hw hrest
  refine ⟨hshort, ?_⟩
  simp only [text, hhead, bind, Except.bind]

/-- A name of a choice is taken as a text. -/
theorem takes_name {ofName? : String → Option α} {names : List String} {u : Bytes} {s : String}
    {a : α} (h : Spells u s) (hname : ofName? s = some a) :
    Takes (choice ofName? names depth) (byte '"' :: u) a := by
  intro w rest hw _
  obtain ⟨h₁, hnext⟩ := next_append (u ++ rest) hw (show isSpace (byte '"') = false by decide)
  obtain ⟨h₂, hread⟩ := scanText_spelled h rest
  rw [List.cons_append]
  refine ⟨by omega, ?_⟩
  rw [choice]
  simp only [hnext, if_true, hread, known, hname, bind, Except.bind, Parsed.widen]

theorem takes_none (r : Reader α) : Takes (optional r depth) (Text.bytes "null") none := by
  intro w rest hw _
  have hnull : Text.bytes "null" = byte 'n' :: [byte 'u', byte 'l', byte 'l'] := Text.bytes_eq _
  obtain ⟨h₁, hnext⟩ := next_append ([byte 'u', byte 'l', byte 'l'] ++ rest) hw
    (show isSpace (byte 'n') = false by decide)
  obtain ⟨h₂, hword⟩ := word_append [byte 'u', byte 'l', byte 'l'] rest
  rw [hnull, List.cons_append]
  refine ⟨Nat.lt_of_le_of_lt h₂ h₁, ?_⟩
  rw [optional]
  simp only [hnext, if_true, hword, bind, Except.bind]

/-- Only null starts with its first letter. -/
theorem takes_some {r : Reader α} {b : UInt8} {bs : Bytes} {a : α}
    (hb : isSpace b = false ∧ b ≠ byte 'n') (h : Takes (r depth) (b :: bs) a) :
    Takes (optional r depth) (b :: bs) (some a) := by
  intro w rest hw hrest
  obtain ⟨_, hnext⟩ := next_append (bs ++ rest) hw hb.1
  have hread := (h w rest hw hrest).map some
  rw [List.cons_append] at hread ⊢
  obtain ⟨hshort, hread⟩ := hread
  refine ⟨hshort, ?_⟩
  simp only [optional, hnext, if_neg hb.2, hread]

theorem takes_items {r : Reader α} {ts : Bytes} {as : List α}
    (h : ListBody (fun t a => Takes (r depth) t a ∧ Starts t) ts as) :
    Takes (list r (depth + 1)) (byte '[' :: ts) as := by
  intro w rest hw _
  obtain ⟨hopen, hhead⟩ := scalarLeaves.head_list hw (ts ++ rest)
  obtain ⟨hshort, hread⟩ := itemsFrom_body And.left And.right h hopen
  rw [List.cons_append]
  refine ⟨hshort, ?_⟩
  simp only [list, head, hhead, bind, Except.bind, hread]

end Reader

/-- However the value is encoded, the reader takes it as this. -/
def Reads (P : Number → Prop) (r : Reader α) (v : Json) (a : α) : Prop :=
  ∀ depth t, (Grammar.meant (Rendered P)).Derives depth t v → Takes (r depth) t a

theorem Reads.map {P : Number → Prop} {r : Reader α} {v : Json} {a : α} (h : Reads P r v a)
    (f : α → β) : Reads P (r.map f) v (f a) :=
  fun depth t ht => (h depth t ht).map f

/-- What is read of an encoding that is the whole document. -/
theorem Reads.readText {P : Number → Prop} {r : Reader α} {v : Json} {a : α} (h : Reads P r v a)
    {t : String} (ht : Encodes P t v) (hv : Readable P maxDepth v) : readText r t = .ok a := by
  obtain ⟨depth, hderives⟩ := ht
  exact readText_of_takes (h _ _ (derives_of_readable hderives hv))

section Readers

variable {P : Number → Prop}

theorem reads_text (s : String) : Reads P .text (.text s) s := by
  intro depth t ht
  obtain ⟨u, rfl, hu⟩ := text_of_derives ht
  exact Reader.takes_spelled hu

theorem reads_choice {ofName? : String → Option α} {names : List String} {s : String} {a : α}
    (h : ofName? s = some a) : Reads P (.choice ofName? names) (.text s) a := by
  intro depth t ht
  obtain ⟨u, rfl, hu⟩ := text_of_derives ht
  exact Reader.takes_name hu h

theorem reads_none (r : Reader α) : Reads P (.optional r) .null none := by
  intro depth t ht
  obtain _ | _ | ⟨⟨⟩⟩ | _ := scalar_of_derives ht nofun nofun
  exact Reader.takes_none r

theorem reads_list {item : Reader α} {vs : List Json} {as : List α}
    (h : List.Forall₂ (fun v a => Reads P item v a) vs as) :
    Reads P (.list item) (.list vs) as := by
  intro depth t ht
  obtain ⟨d, ts, rfl, rfl, hbody⟩ := list_of_derives ht
  exact Reader.takes_items (hbody.imp (h.imp fun v a hread t ht =>
    ⟨hread _ _ ht, starts_form (form_of_derives ht)⟩))

variable (hkept : ∀ n, P n → n.Kept)
include hkept

theorem shows_of_derives {depth : Nat} {t : Bytes} {n : Number}
    (h : (Grammar.meant (Rendered P)).Derives depth t (.number n)) : Shows t (.number n) := by
  obtain ⟨hn, rfl⟩ := number_of_derives h
  exact shows_number (hkept n hn)

theorem reads_natural (width : String) {limit n : Nat} (hn : n ≤ limit) :
    Reads P (.natural width limit) (.ofNat n) n := by
  intro depth t ht w rest hw hrest
  obtain ⟨hshort, hhead⟩ := shows_of_derives hkept ht w rest hw hrest
  have hrange : (0 : Int) ≤ n ∧ (n : Int) ≤ limit := by omega
  refine ⟨hshort, ?_⟩
  simp only [Reader.natural, hhead, bind, Except.bind, hrange, and_self, if_true, Int.toNat_natCast]

theorem reads_float (x : Float) : Reads P .float (.ofFloat x) x := by
  intro depth t ht w rest hw hrest
  obtain ⟨hshort, hhead⟩ := shows_of_derives hkept ht w rest hw hrest
  refine ⟨hshort, ?_⟩
  simp only [Reader.float, hhead, bind, Except.bind]
  rfl

theorem starts_of_derives {depth : Nat} {t : Bytes} {v : Json}
    (h : (Grammar.meant (Rendered P)).Derives depth t v) (hv : v ≠ .null) :
    ∃ b bs, t = b :: bs ∧ isSpace b = false ∧ b ≠ byte 'n' := by
  cases v with
  | null => exact absurd rfl hv
  | bool b =>
      obtain _ | _ | ⟨⟨⟩⟩ | _ := scalar_of_derives h nofun nofun
      cases b <;> rw [Text.bytes_eq] <;> exact ⟨_, _, rfl, by decide⟩
  | number n =>
      obtain ⟨hn, rfl⟩ := number_of_derives h
      exact starts_of_ne_null (scalarForm_render n) (hkept n hn).render_ne_null
  | text s =>
      obtain ⟨u, rfl, -⟩ := text_of_derives h
      exact ⟨_, _, rfl, by decide⟩
  | list vs =>
      obtain ⟨d, ts, -, rfl, -⟩ := list_of_derives h
      exact ⟨_, _, rfl, by decide⟩
  | object ms =>
      obtain ⟨d, ts, -, rfl, -⟩ := object_of_derives h
      exact ⟨_, _, rfl, by decide⟩

theorem reads_some {r : Reader α} {v : Json} {a : α} (hv : v ≠ .null) (h : Reads P r v a) :
    Reads P (.optional r) v (some a) := by
  intro depth t ht
  obtain ⟨b, bs, rfl, hb⟩ := starts_of_derives hkept ht hv
  exact Reader.takes_some hb (h _ _ ht)

end Readers

/-! ### Records -/

namespace Shape

variable {ρ α : Type} {shape : Shape ρ} {depth : Nat} {value : String → Bytes → α → Prop}

/-- What a member of an object does to the record: a member of the record is read, and any other one
is passed over. -/
inductive Sets (shape : Shape ρ) (depth : Nat) (value : String → Bytes → α → Prop) :
    String × α → (ρ → ρ) → Prop where
  | known {k : String} {a : α} {m : Member ρ} {f : ρ → ρ}
    (find : (shape.members.find? fun m => m.key = k) = some m)
    (reads : ∀ t, value k t a → Takes (m.read depth) t f) : Sets shape depth value (k, a) f
  | unknown {k : String} {a : α} (find : (shape.members.find? fun m => m.key = k) = none)
    (passes : ∀ t, value k t a → Passes t) : Sets shape depth value (k, a) id

/-- The names of the members of the record. -/
def keys (shape : Shape ρ) : List String :=
  shape.members.map Member.key

theorem mem_of_find? {k : String} {m : Member ρ}
    (h : (shape.members.find? fun m => m.key = k) = some m) : m ∈ shape.members ∧ m.key = k :=
  ⟨List.mem_of_find?_eq_some h, by simpa using List.find?_some h⟩

theorem notMem_keys_of_find? {k : String}
    (h : (shape.members.find? fun m => m.key = k) = none) : k ∉ shape.keys := by
  intro hkey
  obtain ⟨m, hm, rfl⟩ := List.mem_map.mp hkey
  simpa using List.find?_eq_none.mp h m hm

/-- None of the names of the record comes twice. -/
def Once (shape : Shape ρ) (names : List String) : Prop :=
  (names.filter (· ∈ shape.keys)).Nodup

instance (names : List String) : Decidable (shape.Once names) :=
  inferInstanceAs (Decidable (names.filter (· ∈ shape.keys)).Nodup)

/-- A member of the record is read once, and it is seen then. -/
theorem takes_member {k : String} {a : α} {f : ρ → ρ} (h : shape.Sets depth value (k, a) f)
    {seen : List String} (hnew : k ∈ shape.keys → k ∉ seen) (record : ρ) :
    ∃ seen', (∀ t, value k t a →
        TakesMember (shape.memberAfter depth) k t ⟨seen, record⟩ ⟨seen', f record⟩) ∧
      (∀ key, key ∈ seen' → key ∈ seen ∨ key = k) ∧ (∀ key ∈ seen, key ∈ seen') ∧
      (k ∈ shape.keys → k ∈ seen') := by
  cases h with
  | @known _ _ m _ find reads =>
      obtain ⟨hm, rfl⟩ := mem_of_find? find
      have hkey : m.key ∈ shape.keys := List.mem_map_of_mem hm
      refine ⟨m.key :: seen, fun t ht w₁ w₂ rest h₁ h₂ hrest => ?_,
        fun _ hkey => (List.mem_cons.mp hkey).symm, fun _ => List.mem_cons_of_mem _,
        fun _ => List.mem_cons_self⟩
      obtain ⟨hshort, hread⟩ := memberValue_text (reads t ht) m.key h₁ h₂ hrest
      refine ⟨hshort, ?_⟩
      rw [memberAfter, find]
      simp only [if_neg (hnew hkey), hread]
      rfl
  | unknown find passes =>
      refine ⟨seen, fun t ht w₁ w₂ rest h₁ h₂ hrest => ?_, fun _ => .inl, by simp,
        fun hkey => absurd hkey (notMem_keys_of_find? find)⟩
      obtain ⟨hshort, hread⟩ := memberValue_text (takes_skip (passes t ht)) k h₁ h₂ hrest
      refine ⟨hshort, ?_⟩
      rw [memberAfter, find]
      simp only [hread]
      rfl

/-- The members of an object are read one after the other, and those of the record are seen. -/
theorem membersRun {ms : List (String × α)} {fs : List (ρ → ρ)}
    (h : List.Forall₂ (shape.Sets depth value) ms fs) {seen : List String}
    (honce : shape.Once (ms.map Prod.fst))
    (hnew : ∀ m ∈ ms, m.1 ∈ shape.keys → m.1 ∉ seen) (record : ρ) :
    ∃ seen', MembersRun (shape.memberAfter depth) value ⟨seen, record⟩ ms
        ⟨seen', fs.foldl (fun r f => f r) record⟩ ∧
      (∀ key ∈ seen, key ∈ seen') ∧
      ∀ key ∈ shape.keys, key ∈ ms.map Prod.fst → key ∈ seen' := by
  -- The invariant is that no name of the record still to come has been seen; each comes once.
  induction h generalizing seen record with
  | nil => exact ⟨seen, .nil _, fun _ => id, by simp⟩
  | @cons m f ms fs hfirst _ ih =>
      obtain ⟨k, a⟩ := m
      rw [Once, List.map_cons, List.filter_cons] at honce
      obtain ⟨seen₁, htakes, hold, hkeep, hseen⟩ :=
        takes_member hfirst (hnew _ List.mem_cons_self) record
      have hrest : shape.Once (ms.map Prod.fst) := by
        split at honce
        · exact honce.of_cons
        · exact honce
      have hnew₁ : ∀ m ∈ ms, m.1 ∈ shape.keys → m.1 ∉ seen₁ := by
        intro m hm hkey hmem
        rcases hold _ hmem with hmem | rfl
        · exact hnew m (List.mem_cons_of_mem _ hm) hkey hmem
        · rw [if_pos (decide_eq_true hkey), List.nodup_cons] at honce
          exact honce.1 (List.mem_filter.mpr
            ⟨List.mem_map.mpr ⟨m, hm, rfl⟩, decide_eq_true hkey⟩)
      obtain ⟨seen₂, hrun, hkeep₂, hseen₂⟩ := ih hrest hnew₁ (f record)
      refine ⟨seen₂, .cons htakes hrun, fun key hkey => hkeep₂ key (hkeep key hkey), ?_⟩
      intro key hkey hname
      rcases List.mem_cons.mp hname with rfl | hlater
      · exact hkeep₂ _ (hseen hkey)
      · exact hseen₂ key hkey hlater

/-- The members that must be there are there. -/
def Complete (shape : Shape ρ) (keys : List String) : Prop :=
  ∀ m ∈ shape.members, m.presence = .required → m.key ∈ keys

theorem missing?_eq_none {keys : List String} (h : shape.Complete keys) :
    shape.missing? keys = none := by
  rw [missing?, Option.map_eq_none_iff, List.find?_eq_none]
  intro m hm
  simpa using h m hm

/-- A record is read from an object with its members, each of them once, and whatever else. -/
theorem takes_record {ts : Bytes} {ms : List (String × α)} {fs : List (ρ → ρ)}
    (hbody : ObjectBody Spells value ts ms)
    (honce : shape.Once (ms.map Prod.fst))
    (hsets : List.Forall₂ (shape.Sets depth value) ms fs)
    (hcomplete : shape.Complete (ms.map Prod.fst)) :
    Takes (shape.reader (depth + 1)) (byte '{' :: ts)
      (fs.foldl (fun r f => f r) shape.blank) := by
  intro w rest hw _
  have hnew : ∀ m ∈ ms, m.1 ∈ shape.keys → m.1 ∉ ([] : List String) :=
    fun _ _ _ => List.not_mem_nil
  obtain ⟨seen, hrun, -, hseen⟩ := membersRun hsets honce hnew shape.blank
  have hmissing : shape.missing? seen = none :=
    missing?_eq_none fun m hm hrequired =>
      hseen m.key (List.mem_map_of_mem hm) (hcomplete m hm hrequired)
  obtain ⟨hopen, hhead⟩ := scalarLeaves.head_object hw (ts ++ rest)
  obtain ⟨hshort, hread⟩ := membersFrom_body hbody hrun hopen
  rw [List.cons_append]
  refine ⟨hshort, ?_⟩
  simp only [reader, head, hhead, ofObject, bind, Except.bind, hread, hmissing]

/-- What is written under a name does this to the record: a member of the record is read, and any
other one is passed over. -/
inductive Fills (P : Number → Prop) (shape : Shape ρ) : String × Json → (ρ → ρ) → Prop where
  | known {k : String} {v : Json} {m : Member ρ} {f : ρ → ρ}
    (find : (shape.members.find? fun m => m.key = k) = some m) (reads : Reads P m.read v f) :
    Fills P shape (k, v) f
  | unknown {k : String} {v : Json} (find : (shape.members.find? fun m => m.key = k) = none) :
    Fills P shape (k, v) id

theorem fills_member {P : Number → Prop} {β : Type} {key key' : String} {presence : Presence}
    {r : Reader β} {set : β → ρ → ρ} {v : Json} {b : β}
    (find : (shape.members.find? fun m => m.key = key) = some (member key' presence r set))
    (h : Reads P r v b) : shape.Fills P (key, v) (set b) :=
  .known find (h.map set)

theorem fills_member? {P : Number → Prop} {β : Type} {key : String} {o : Option β} {f : β → Json}
    {g : β → ρ → ρ} (h : ∀ b, shape.Fills P (key, f b) (g b)) :
    List.Forall₂ (shape.Fills P) (Json.member? key (o.map f)) (o.toList.map g) := by
  cases o with
  | none => exact .nil
  | some b => exact .cons (h b) .nil

/-- A record is read from every encoding of an object with its members, and whatever else. -/
theorem reads_record {P : Number → Prop} {ms : List (String × Json)} {fs : List (ρ → ρ)} {r : ρ}
    (hfills : List.Forall₂ (shape.Fills P) ms fs) (hcomplete : shape.Complete (ms.map Prod.fst))
    (hrecord : fs.foldl (fun r f => f r) shape.blank = r) :
    Reads P shape.reader (.object ms) r := by
  intro depth t ht
  obtain ⟨d, ts, rfl, rfl, hnames, hbody⟩ := object_of_derives ht
  have hsets : List.Forall₂
      (shape.Sets d fun _ => (Grammar.meant (Rendered P)).Derives d) ms fs := by
    refine hfills.imp fun _ _ h => ?_
    cases h with
    | known find reads => exact .known find fun _ ht => reads _ _ ht
    | unknown find => exact .unknown find fun _ ht => passes_form (form_of_derives ht)
  rw [← hrecord]
  exact takes_record hbody (hnames.filter _) hsets hcomplete

end Shape

end CodeReview.Json
