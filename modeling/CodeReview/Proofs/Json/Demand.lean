import CodeReview.Proofs.Json.Acceptance
import CodeReview.Proofs.Json.Members

/-!
Readers of one kind of value demand that kind. Whatever such a reader takes was written there for
it, and shows its own end; so where another value stands, nothing is taken. A record is read from an
object only if no name of the record comes twice in it and what stands under these names is what is
demanded.
-/

namespace CodeReview.Json

variable {α : Type}

/-- Where there is a value, the reader takes all of it, and only if it is written for what is
read. -/
def Demands (read : (s : Bytes) → Except Fault (Parsed α s)) (written : Bytes → α → Prop) : Prop :=
  ∀ ⦃depth t⦄, Form depth t → ∀ ⦃w rest⦄, Spaces w → Ends rest →
    ∀ ⦃p : Parsed α (w ++ (t ++ rest))⦄, read (w ++ (t ++ rest)) = .ok p →
      written t p.value ∧ p.rest = rest

/-- What is written like this shows where it starts and where it ends. -/
def Distinct (written : Bytes → α → Prop) : Prop :=
  ∀ ⦃t a⦄, written t a → Delimited t ∧ Starts t

theorem demands_of_accepts {read : (s : Bytes) → Except Fault (Parsed α s)}
    {written : Bytes → α → Prop} (haccepts : Accepts read written)
    (hdistinct : Distinct written) : Demands read written := by
  intro depth t hform w rest hw hrest p hread
  obtain ⟨w', t', hw', ht', heq⟩ := haccepts hread
  obtain ⟨hdelimited, hstarts⟩ := hdistinct ht'
  obtain ⟨rfl, hrests⟩ := hdelimited.unique hstarts hw' hform hw hrest heq
  exact ⟨ht', hrests.symm⟩

/-! ### What is written -/

/-- A text between quotation marks, however it is spelled. -/
theorem distinct_quoted : Distinct Quoted := by
  rintro _ _ ⟨u, rfl, hu⟩
  exact ⟨delimited_text hu.form, starts_cons (by decide)⟩

theorem Quoted.form {t : Bytes} {s : String} (h : Quoted t s) (depth : Nat) : Form depth t := by
  obtain ⟨u, rfl, hu⟩ := h
  exact Grammar.derives_scalar (.text hu.form)

theorem distinct_nullable {written : Bytes → α → Prop} (h : Distinct written) :
    Distinct (Nullable written) := by
  rintro _ _ (_ | hvalue)
  · exact ⟨delimited_null, starts_scalarForm .null⟩
  · exact h hvalue

/-- The items of a list with their texts. -/
theorem ListBody.exists_raw {written : Bytes → α → Prop} {ts : Bytes} {as : List α}
    (h : ListBody written ts as) :
    ∃ us, ListBody (fun u v => u = v) ts us ∧ List.Forall₂ written us as := by
  have hlist {ts : Bytes} {as : List α} (h : ListText written ts as) :
      ∃ us, ListText (fun u v => u = v) ts us ∧ List.Forall₂ written us as := by
    induction h with
    | @last w t w' a before value after =>
        exact ⟨[t], .last before rfl after, .cons value .nil⟩
    | @more w t w' ts a as before value after _ ih =>
        obtain ⟨us, hus, hwritten⟩ := ih
        exact ⟨t :: us, .more before rfl after hus, .cons value hwritten⟩
  cases h with
  | empty blank => exact ⟨[], .empty blank, .nil⟩
  | items h =>
      obtain ⟨us, hus, hwritten⟩ := hlist h
      exact ⟨us, .items hus, hwritten⟩

/-- A list of which each item is written like this. -/
def Listed (written : Bytes → α → Prop) (t : Bytes) (as : List α) : Prop :=
  ∃ us, RawList t us ∧ List.Forall₂ written us as

theorem distinct_listed {written : Bytes → α → Prop} {depth : Nat}
    (hform : ∀ {t a}, written t a → Form depth t) : Distinct (Listed written) := by
  rintro _ as ⟨us, ⟨ts, rfl, hbody⟩, hwritten⟩
  have hitems : ListBody (fun t _ => Form depth t) ts as :=
    hbody.imp (hwritten.imp fun _ _ h _ ht => ht ▸ hform h)
  exact ⟨delimited_list hitems, starts_cons (by decide)⟩

/-- A name stands between quotation marks, or it is the only one of an object, with null under
it. -/
inductive Chosen (ofName? : String → Option α) : Bytes → α → Prop where
  | text {t : Bytes} {s : String} {a : α} (h : Quoted t s) (name : ofName? s = some a) :
    Chosen ofName? t a
  | object {t : Bytes} {s : String} {a : α} (h : RawObject t [(s, Text.bytes "null")])
    (name : ofName? s = some a) : Chosen ofName? t a

theorem distinct_chosen (ofName? : String → Option α) : Distinct (Chosen ofName?) := by
  rintro _ a (⟨hquoted, -⟩ | ⟨⟨ts, rfl, hbody⟩, -⟩)
  · exact distinct_quoted hquoted
  · have hmembers : ObjectForm 0 ts := by
      refine ⟨[((), ())], hbody.imp (.cons ⟨fun n hn => hn.form, fun t ht => ?_⟩ .nil)⟩
      rw [ht]
      exact .null
    exact ⟨delimited_object hmembers, starts_cons (by decide)⟩

theorem Chosen.starts {ofName? : String → Option α} {t : Bytes} {a : α} (h : Chosen ofName? t a) :
    ∃ b bs, t = b :: bs ∧ isSpace b = false ∧ b ≠ byte 'n' := by
  obtain ⟨⟨u, rfl, -⟩, -⟩ | ⟨hobject, -⟩ := h
  · exact ⟨_, u, rfl, by decide⟩
  · exact hobject.starts

theorem Listed.starts {written : Bytes → α → Prop} {t : Bytes} {as : List α}
    (h : Listed written t as) : ∃ b bs, t = b :: bs ∧ isSpace b = false ∧ b ≠ byte 'n' := by
  obtain ⟨us, ⟨ts, rfl, -⟩, -⟩ := h
  exact ⟨_, ts, rfl, by decide⟩

/-! ### Readers -/

namespace Reader

variable {depth : Nat}

theorem takes_chosen {ofName? : String → Option α} {names : List String} {t : Bytes} {a : α}
    (h : Chosen ofName? t a) : Takes (choice ofName? names (depth + 1)) t a := by
  obtain ⟨⟨u, rfl, hu⟩, hname⟩ | ⟨hobject, hname⟩ := h
  · exact takes_name hu hname
  · exact takes_nameObject hobject hname

theorem accepts_text : Accepts (text depth) Quoted := by
  intro s p h
  obtain ⟨r, hr, h⟩ := ok_of_bind h
  obtain @⟨⟨a, rest, _⟩, w, t, hw, ht, hs⟩ | - := form_of_head scalarLeaves_sound hr
  · cases a with
    | text a =>
        cases h
        obtain _ | _ | _ | hspelled := ht
        exact ⟨w, _, hw, ⟨_, rfl, hspelled⟩, hs⟩
    | _ => cases h
  · cases h

theorem accepts_unit : Accepts (unit depth) fun t _ => t = Text.bytes "null" := by
  intro s p h
  obtain ⟨r, hr, h⟩ := ok_of_bind h
  obtain @⟨⟨a, rest, _⟩, w, t, hw, ht, hs⟩ | - := form_of_head scalarLeaves_sound hr
  · cases a with
    | null =>
        cases h
        generalize hnull : Scalar.null = a at ht
        obtain _ | _ | _ | _ := ht
        · exact ⟨w, _, hw, rfl, hs⟩
        · cases hnull
        · cases hnull
        · cases hnull
    | _ => cases h
  · cases h

theorem accepts_optional {r : Reader α} {written : Bytes → α → Prop}
    (hr : Accepts (r depth) written) : Accepts (optional r depth) (Nullable written) := by
  have hvalue {s : Bytes} {p : Parsed (Option α) s}
      (h : (r depth s).map (Parsed.map some) = .ok p) :
      ∃ w t, Spaces w ∧ Nullable written t p.value ∧ s = w ++ (t ++ p.rest) := by
    obtain ⟨q, hq, rfl⟩ := ok_of_map h
    obtain ⟨w, t, hw, ht, hs⟩ := hr hq
    exact ⟨w, t, hw, .value ht, hs⟩
  intro s p h
  rw [optional] at h
  split at h
  · rename_i q hnext
    split at h
    · rename_i hletter
      obtain ⟨rest, hword, h⟩ := ok_of_bind h
      cases h
      obtain ⟨w, hw, -, hs⟩ := eq_of_next hnext
      rw [hletter, eq_of_word hword] at hs
      refine ⟨w, _, hw, .null, ?_⟩
      rw [Text.bytes_eq]
      exact hs
    · exact hvalue h
  · exact hvalue h

theorem accepts_list {item : Reader α} {written : Bytes → α → Prop}
    (hitem : ∀ depth, Accepts (item depth) written) :
    Accepts (list item depth) (Listed written) := by
  intro s p h
  obtain ⟨r, hr, h⟩ := ok_of_bind h
  obtain - | @⟨c, q, w, hw, hs⟩ := form_of_head scalarLeaves_sound hr
  · cases h
  cases c with
  | object => cases h
  | list =>
      cases depth with
      | zero => cases h
      | succ depth =>
          obtain ⟨ts, hbody, hrest⟩ := form_of_itemsFrom (hitem depth) h
          obtain ⟨us, hraw, hwritten⟩ := hbody.exists_raw
          rw [hrest] at hs
          exact ⟨w, _, hw, ⟨us, ⟨ts, rfl, hraw⟩, hwritten⟩, hs⟩

theorem eq_of_known {ofName? : String → Option α} {names : List String} {s : Bytes}
    {name : Parsed String s} {p : Parsed α s} (h : known ofName? names name = .ok p) :
    ofName? name.value = some p.value ∧ p.rest = name.rest := by
  rw [known] at h
  split at h
  · rename_i a ha
    cases h
    exact ⟨ha, rfl⟩
  · cases h

theorem accepts_choice (ofName? : String → Option α) (names : List String) :
    Accepts (choice ofName? names depth) (Chosen ofName?) := by
  intro s p h
  rw [choice] at h
  split at h
  · cases h
  rename_i q hnext
  obtain ⟨w, hw, -, hs⟩ := eq_of_next hnext
  split at h
  · rename_i hmark
    obtain ⟨name, hname, h⟩ := ok_of_bind h
    obtain ⟨a, ha, h⟩ := ok_of_bind h
    cases h
    obtain ⟨n, hn, hrest⟩ := spells_of_scanText hname
    obtain ⟨hchosen, hleft⟩ := eq_of_known ha
    rw [hmark, hrest, ← hleft] at hs
    exact ⟨w, _, hw, .text ⟨n, rfl, hn⟩ hchosen, hs⟩
  split at h
  · rename_i hbrace
    cases depth with
    | zero => cases h
    | succ depth =>
        dsimp only at h
        split at h
        · cases h
        rename_i mark hfirst
        obtain ⟨w₁, h₁, -, hopened⟩ := eq_of_next hfirst
        split at h
        · rename_i hmark
          obtain ⟨name, hname, h⟩ := ok_of_bind h
          obtain ⟨a, ha, h⟩ := ok_of_bind h
          obtain ⟨u, hu, h⟩ := ok_of_bind h
          obtain ⟨n, hn, hrest⟩ := spells_of_scanText hname
          obtain ⟨hchosen, hleft⟩ := eq_of_known ha
          obtain ⟨w₂, w₃, t, h₂, h₃, rfl, hvalue⟩ := form_of_memberValue accepts_unit hu
          split at h
          · cases h
          rename_i e hlast
          obtain ⟨w₄, h₄, -, hclosed⟩ := eq_of_next hlast
          split at h
          · rename_i hend
            cases h
            rw [hbrace, hopened, hmark, hrest, ← hleft, hvalue, hclosed, hend] at hs
            exact ⟨w, _, hw, .object ⟨_, rfl, .members h₁ (.last hn h₂ h₃ rfl h₄)⟩ hchosen,
              by simpa using hs⟩
          · cases h
        obtain ⟨other, -, h⟩ := ok_of_bind h
        cases h
  · cases h

end Reader

/-! ### Records -/

namespace Shape

variable {ρ : Type} {shape : Shape ρ} {depth : Nat} {demanded : String → Bytes → Prop}

/-- What the member with this name and this text adds to the names that were seen: nothing if it is
unknown; otherwise its name, which is new, and the text is what is demanded under it. -/
inductive Adds (shape : Shape ρ) (demanded : String → Bytes → Prop) (k : String) (t : Bytes)
    (seen : List String) : List String → Prop where
  | unknown (h : k ∉ shape.keys) : Adds shape demanded k t seen seen
  | known (h : k ∈ shape.keys) (unseen : k ∉ seen) (text : demanded k t) :
    Adds shape demanded k t seen (k :: seen)

/-- No name of the record comes twice, none was seen before, and under each of them stands what is
demanded. -/
structure Meets (shape : Shape ρ) (demanded : String → Bytes → Prop) (seen : List String)
    (ms : List (String × Bytes)) : Prop where
  once : shape.Once (ms.map Prod.fst)
  unseen : ∀ m ∈ ms, m.1 ∈ shape.keys → m.1 ∉ seen
  texts : ∀ m ∈ ms, m.1 ∈ shape.keys → demanded m.1 m.2

theorem meets_nil (seen : List String) : shape.Meets demanded seen [] :=
  ⟨List.nodup_nil, nofun, nofun⟩

theorem Meets.cons {k : String} {t : Bytes} {seen seen' : List String}
    {ms : List (String × Bytes)} (h : shape.Meets demanded seen' ms)
    (hadds : shape.Adds demanded k t seen seen') : shape.Meets demanded seen ((k, t) :: ms) := by
  cases hadds with
  | unknown hkey =>
      refine ⟨?_, ?_, ?_⟩
      · rw [Once, List.map_cons, List.filter_cons_of_neg (by simpa using hkey)]
        exact h.once
      · exact List.forall_mem_cons.mpr ⟨fun hknown => absurd hknown hkey, h.unseen⟩
      · exact List.forall_mem_cons.mpr ⟨fun hknown => absurd hknown hkey, h.texts⟩
  | known hkey unseen text =>
      refine ⟨?_, ?_, ?_⟩
      · rw [Once, List.map_cons, List.filter_cons_of_pos (by simpa using hkey), List.nodup_cons]
        refine ⟨fun hmem => ?_, h.once⟩
        obtain ⟨m, hm, hk⟩ := List.mem_map.mp (List.mem_filter.mp hmem).1
        exact h.unseen m hm (hk ▸ hkey) (hk ▸ List.mem_cons_self)
      · refine List.forall_mem_cons.mpr ⟨fun _ => unseen, fun m hm hkey hmem => ?_⟩
        exact h.unseen m hm hkey (List.mem_cons_of_mem _ hmem)
      · exact List.forall_mem_cons.mpr ⟨fun _ => text, h.texts⟩

/-- What a member of the record demands is what its reader accepts. -/
theorem demands_member {key : String} {presence : Presence} {r : Reader α} {set : α → ρ → ρ}
    {written : Bytes → α → Prop} (haccepts : Accepts (r depth) written)
    (hdistinct : Distinct written) (hdemanded : ∀ t a, written t a → demanded key t) :
    Demands ((member key presence r set).read depth) fun t _ => demanded key t := by
  intro d t hform w rest hw hrest p hread
  obtain ⟨q, hq, rfl⟩ := ok_of_map hread
  obtain ⟨ht, hleft⟩ := demands_of_accepts haccepts hdistinct hform hw hrest hq
  exact ⟨hdemanded t _ ht, hleft⟩

variable (hdemands : ∀ m ∈ shape.members, Demands (m.read depth) fun t _ => demanded m.key t)
include hdemands

/-- A member is read if it is unknown, or if it is new and what is demanded. -/
theorem adds_of_memberAfter {k : String} {t w₁ w₂ rest : Bytes} {d : Nat} (hform : Form d t)
    (h₁ : Spaces w₁) (h₂ : Spaces w₂) (hrest : Ends rest) {state : Partial ρ}
    {p : Parsed (Partial ρ) (w₁ ++ byte ':' :: (w₂ ++ (t ++ rest)))}
    (h : shape.memberAfter depth k state (w₁ ++ byte ':' :: (w₂ ++ (t ++ rest))) = .ok p) :
    shape.Adds demanded k t state.seen p.value.seen ∧ p.rest = rest := by
  rw [memberAfter] at h
  split at h
  · rename_i hfind
    obtain ⟨q, hq, rfl⟩ := ok_of_map h
    obtain ⟨hshort, hskip⟩ := memberValue_text (takes_skip (passes_form hform)) k h₁ h₂ hrest
    rw [hskip] at hq
    cases hq
    exact ⟨.unknown (notMem_keys_of_find? hfind), rfl⟩
  · rename_i m hfind
    obtain ⟨hm, rfl⟩ := mem_of_find? hfind
    split at h
    · cases h
    rename_i hunseen
    obtain ⟨q, hq, rfl⟩ := ok_of_map h
    obtain ⟨c, hc, hq⟩ := ok_of_bind hq
    obtain ⟨v, hv, hq⟩ := ok_of_bind hq
    obtain ⟨hshort, hcolon⟩ := colon_append h₁ (w₂ ++ (t ++ rest))
    rw [hcolon] at hc
    cases hc
    cases hq
    obtain ⟨htext, hleft⟩ := hdemands m hm hform h₂ hrest (ok_of_within hv)
    exact ⟨.known (List.mem_map_of_mem hm) hunseen htext, hleft⟩

/-- The members of an object are read one after the other only if each is what is demanded. -/
theorem meets_of_members {ts : Bytes} {ms : List (String × Bytes)}
    (h : MembersText Spells (fun _ u v => u = v) ts ms) (hforms : ∀ m ∈ ms, ∃ d, Form d m.2)
    {start s rest : Bytes} (hs : s = ts ++ rest) {hshort : s.length < start.length}
    {state : Partial ρ} {p : Parsed (Partial ρ) start}
    (hread : Json.members (shape.memberAfter depth) start s hshort state = .ok p) :
    shape.Meets demanded state.seen ms ∧ p.rest = rest := by
  -- The names seen so far are the invariant: each member adds its own to them.
  induction h generalizing s state with
  | @last k n t w₁ w₂ w₃ u named colon before written after =>
      subst written
      obtain rfl : s = n ++ (w₁ ++ byte ':' :: (w₂ ++ (t ++ (w₃ ++ byte '}' :: rest)))) := by
        simp [hs]
      obtain ⟨d, (hform : Form d t)⟩ := hforms _ List.mem_cons_self
      obtain ⟨h₁, hname⟩ :=
        scanText_spelled named (w₁ ++ byte ':' :: (w₂ ++ (t ++ (w₃ ++ byte '}' :: rest))))
      obtain ⟨h₂, hnext⟩ := next_append rest after (show isSpace (byte '}') = false by decide)
      rw [Json.members, hname] at hread
      obtain ⟨_, ⟨⟩, hread⟩ := ok_of_bind hread
      obtain ⟨⟨state', left, h₃⟩, hmember, hread⟩ := ok_of_bind hread
      obtain ⟨hadds, rfl⟩ := adds_of_memberAfter hdemands hform colon before
        (ends_append after ends_objectEnd) hmember
      simp only [hnext, if_true] at hread
      cases hread
      exact ⟨(meets_nil _).cons hadds, rfl⟩
  | @more k n t w₁ w₂ w₃ w₄ ts u ms named colon before written after mark hts ih =>
      subst written
      obtain rfl : s = n ++ (w₁ ++ byte ':' ::
          (w₂ ++ (t ++ (w₃ ++ byte ',' :: (w₄ ++ byte '"' :: (ts ++ rest)))))) := by
        simp [hs]
      obtain ⟨d, (hform : Form d t)⟩ := hforms _ List.mem_cons_self
      obtain ⟨h₁, hname⟩ := scanText_spelled named
        (w₁ ++ byte ':' :: (w₂ ++ (t ++ (w₃ ++ byte ',' :: (w₄ ++ byte '"' :: (ts ++ rest))))))
      obtain ⟨h₂, hnext⟩ := next_append (w₄ ++ byte '"' :: (ts ++ rest)) after
        (show isSpace (byte ',') = false by decide)
      obtain ⟨h₃, hquote⟩ := next_append (ts ++ rest) mark
        (show isSpace (byte '"') = false by decide)
      rw [Json.members, hname] at hread
      obtain ⟨_, ⟨⟩, hread⟩ := ok_of_bind hread
      obtain ⟨⟨state', left, h₄⟩, hmember, hread⟩ := ok_of_bind hread
      obtain ⟨hadds, rfl⟩ := adds_of_memberAfter hdemands hform colon before
        (ends_append after ends_comma) hmember
      have hcomma : byte ',' ≠ byte '}' := by decide
      simp only [hnext, hcomma, hquote, if_true, if_false] at hread
      obtain ⟨hmeets, hleft⟩ :=
        ih (fun m hm => hforms m (List.mem_cons_of_mem _ hm)) rfl hread
      exact ⟨hmeets.cons hadds, hleft⟩

theorem meets_of_membersFrom {ts : Bytes} {ms : List (String × Bytes)}
    (h : ObjectBody Spells (fun _ u v => u = v) ts ms) (hforms : ∀ m ∈ ms, ∃ d, Form d m.2)
    {s rest : Bytes} {state : Partial ρ} {opened : Parsed Unit s}
    (hopened : opened.rest = ts ++ rest) {p : Parsed (Partial ρ) s}
    (hread : membersFrom (shape.memberAfter depth) state opened = .ok p) :
    shape.Meets demanded state.seen ms ∧ p.rest = rest := by
  obtain ⟨_, left, _⟩ := opened
  cases h with
  | @empty w blank =>
      obtain rfl : left = w ++ byte '}' :: rest := by simpa using hopened
      obtain ⟨hshort, hnext⟩ := next_append rest blank (show isSpace (byte '}') = false by decide)
      rw [membersFrom] at hread
      simp only [hnext, if_true] at hread
      cases hread
      exact ⟨meets_nil _, rfl⟩
  | @members w ts ms blank h =>
      obtain rfl : left = w ++ byte '"' :: (ts ++ rest) := by simpa using hopened
      obtain ⟨hshort, hnext⟩ := next_append (ts ++ rest) blank
        (show isSpace (byte '"') = false by decide)
      have hmark : byte '"' ≠ byte '}' := by decide
      rw [membersFrom] at hread
      simp only [hnext, hmark, if_false, if_true] at hread
      exact meets_of_members hdemands h hforms rfl hread

/-- An object is read as a record only if its members are what is demanded of them. -/
theorem meets_of_reader {t : Bytes} {ms : List (String × Bytes)} (h : RawObject t ms)
    (hforms : ∀ m ∈ ms, ∃ d, Form d m.2) {w rest : Bytes} (hw : Spaces w)
    {p : Parsed ρ (w ++ (t ++ rest))}
    (hread : shape.reader (depth + 1) (w ++ (t ++ rest)) = .ok p) :
    shape.Meets demanded [] ms ∧ p.rest = rest := by
  obtain ⟨ts, rfl, hbody⟩ := h
  obtain ⟨hopen, hhead⟩ := scalarLeaves.head_object hw (ts ++ rest)
  obtain ⟨r, hr, hread⟩ := ok_of_bind hread
  rw [head] at hr
  obtain rfl := Except.ok.inj (hhead.symm.trans hr)
  obtain ⟨q, hq, hread⟩ := ok_of_bind hread
  obtain ⟨hmeets, hleft⟩ := meets_of_membersFrom hdemands hbody hforms rfl hq
  split at hread
  · cases hread
  · cases hread
    exact ⟨hmeets, hleft⟩

end Shape

end CodeReview.Json
