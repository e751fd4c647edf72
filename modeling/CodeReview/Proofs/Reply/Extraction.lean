import CodeReview.Proofs.Json.Acceptance
import CodeReview.Proofs.Json.Encoding
import CodeReview.Proofs.Reply

/-!
What is taken out of a reply is all or nothing. A reply with one complete object, and without braces
of the wrong kind around it, gives the entries of that object. A reply whose object is cut short, or
that has more braces after its object, gives no entries at all, since no object goes on to be
another one.
-/

namespace CodeReview.Reply

/-! ### Replies without entries -/

theorem decode_eq_none {span : String} (h : ∀ v, Json.readText .value span ≠ .ok v) :
    decode span = .none := by
  rw [decode]
  split
  · rename_i v hread
    exact absurd hread (h v)
  · rfl

/-- A part in braces that is no object of JSON has no entries. -/
theorem decode_of_not_isObject {span : String} (hbraces : Text.InBraces span)
    (h : ¬ Json.IsObject span) : decode span = .none :=
  decode_eq_none fun _ hread => h (Json.isObject_of_readText hbraces hread)

theorem eq_empty_of_head? {c t : String} (h : (c ++ t).toList.head? = some '{')
    (hc : '{' ∉ c.toList) : c = "" := by
  apply String.toList_injective
  rw [String.toList_append] at h
  cases hlist : c.toList with
  | nil => rfl
  | cons d ds =>
      rw [hlist, List.cons_append, List.head?_cons, Option.some.injEq] at h
      rw [hlist, h] at hc
      exact absurd List.mem_cons_self hc

/-- Of an object that is cut short, no part in braces is an object. -/
theorem entries_of_cut {o p q : String} (ho : Json.IsObject o) (hcut : o = p ++ q)
    (hq : q ≠ "") {a b : String} (ha : '{' ∉ a.toList) (hb : '}' ∉ b.toList) :
    entries (a ++ p ++ b) = .none := by
  rw [entries, span?_append ha hb]
  cases hspan : span? p with
  | none => rfl
  | some span =>
      obtain ⟨hbraces, c, d, hp, hc, -⟩ := span?_spec hspan
      have hwhole : o = c ++ (span ++ (d ++ q)) := by
        rw [hcut, hp]
        simp only [String.append_assoc]
      -- The object starts with a brace, so the part in braces starts where the object starts.
      obtain rfl := eq_empty_of_head? (hwhole ▸ ho.inBraces.opens) hc
      rw [String.empty_append] at hwhole
      refine decode_of_not_isObject hbraces fun hobject => hq ?_
      rw [hwhole] at ho
      exact (String.append_eq_empty_iff.mp (hobject.eq_empty ho)).2

/-- An object that was cut short gives no entries, wherever it was cut: not those that are complete,
and not those in a part that ends with a brace of its own. In the same place the whole object gives
its entries. -/
theorem entries_of_truncated {o : String} (hbraces : Text.InBraces o) {v : Json}
    (hread : Json.readText .value o = .ok v) {a b : String} (ha : '{' ∉ a.toList)
    (hb : '}' ∉ b.toList) :
    entries (a ++ o ++ b) = ⟨itemsOf "issues" v, itemsOf "suggestions" v⟩ ∧
      ∀ p q : String, o = p ++ q → q ≠ "" → entries (a ++ p ++ b) = .none :=
  ⟨entries_of_read ha hb hbraces hread, fun _ _ hcut hq =>
    entries_of_cut (Json.isObject_of_readText hbraces hread) hcut hq ha hb⟩

/-- Without its last brace the object still has closing braces, in a text and after a member. -/
theorem entries_of_truncated_nested :
    let v : Json := .object [("issues", .list [.text "\x7d"]), ("rest", .object [])]
    let p := "\x7b\"issues\":[\"\x7d\"],\"rest\":\x7b\x7d"
    Text.InBraces (p ++ "\x7d") ∧ Json.readText .value (p ++ "\x7d") = .ok v ∧
      entries ("So: " ++ (p ++ "\x7d") ++ " - \x7b") = ⟨[.text "\x7d"], []⟩ ∧
      entries ("So: " ++ p ++ " - \x7b") = .none := by
  intro v p
  have hcompact : Json.compact v = p ++ "\x7d" := by decide
  have hreadable : Json.Readable Json.Number.IsWord Json.maxDepth v := by
    simp [v, Json.maxDepth, Json.Readable, Json.ReadableMembers, Json.ReadableItems]
  have hread := Json.readText_compact Json.Number.IsWord.kept hreadable
  rw [hcompact] at hread
  have hbraces : Text.InBraces (p ++ "\x7d") := ⟨by decide, by decide⟩
  obtain ⟨hwhole, hcut⟩ := entries_of_truncated hbraces hread (a := "So: ") (b := " - \x7b")
    (by decide) (by decide)
  exact ⟨hbraces, hread, hwhole, hcut p "\x7d" rfl (by decide)⟩

theorem entries_of_second {o t : String} (ho : Json.IsObject o) (ht : '}' ∈ t.toList) {a : String}
    (ha : '{' ∉ a.toList) : entries (a ++ o ++ t) = .none := by
  obtain ⟨u, d, rfl, hlast, hd⟩ := exists_lastBrace ht
  have hu : u.toList ≠ [] := by
    intro hnil
    rw [hnil] at hlast
    cases hlast
  have hbraces : Text.InBraces (o ++ u) := by
    constructor
    · rw [String.toList_append, List.head?_append, ho.inBraces.opens, Option.some_or]
    · rw [String.toList_append, List.getLast?_append_of_ne_nil _ hu, hlast]
  have htext : a ++ o ++ (u ++ d) = a ++ (o ++ u) ++ d := by
    simp only [String.append_assoc]
  rw [htext, entries_append ha hd hbraces]
  refine decode_of_not_isObject hbraces fun hobject => hu ?_
  rw [ho.eq_empty hobject, String.toList_empty]

/-- A reply with another closing brace after its object gives no entries: neither those of the
object, which may be any that JSON knows, nor those of the text after it. Text without a closing
brace may follow, and then the entries are those of the object. -/
theorem entries_of_ambiguous {o : String} (ho : Json.IsObject o) {a : String}
    (ha : '{' ∉ a.toList) (t : String) :
    ('}' ∈ t.toList → entries (a ++ o ++ t) = .none) ∧
      ('}' ∉ t.toList → ∀ v, Json.readText .value o = .ok v →
        entries (a ++ o ++ t) = ⟨itemsOf "issues" v, itemsOf "suggestions" v⟩) :=
  ⟨fun ht => entries_of_second ho ht ha, fun ht _ => entries_of_read ha ht ho.inBraces⟩

/-- Each of the two objects is read if it is alone. -/
theorem entries_of_ambiguous_twice :
    let o := "\x7b\"issues\":[\"\x7d\"]\x7d"
    Json.IsObject o ∧ entries ("First: " ++ o ++ ", then: \x7b") = ⟨[.text "\x7d"], []⟩ ∧
      entries ("First: " ++ o ++ (", then: " ++ o)) = .none := by
  intro o
  let v : Json := .object [("issues", .list [.text "\x7d"])]
  have hcompact : Json.compact v = o := by decide
  have hreadable : Json.Readable Json.Number.IsWord Json.maxDepth v := by
    simp [v, Json.maxDepth, Json.Readable, Json.ReadableMembers, Json.ReadableItems]
  have hread := Json.readText_compact Json.Number.IsWord.kept hreadable
  rw [hcompact] at hread
  have hobject := Json.isObject_of_readText ⟨by decide, by decide⟩ hread
  have hfirst : '{' ∉ "First: ".toList := by decide
  exact ⟨hobject, (entries_of_ambiguous hobject hfirst ", then: \x7b").2 (by decide) v hread,
    (entries_of_ambiguous hobject hfirst (", then: " ++ o)).1 (by decide)⟩

/-! ### Replies with one object -/

theorem lookup_eq_some_of_mem {ms : List (String × Json)} (hnames : (ms.map Prod.fst).Nodup)
    {key : String} {v : Json} (h : (key, v) ∈ ms) : ms.lookup key = some v := by
  obtain ⟨ms₁, ms₂, rfl⟩ := List.append_of_mem h
  rw [List.map_append, List.map_cons, List.nodup_append] at hnames
  refine List.lookup_eq_some_iff.mpr ⟨ms₁, ms₂, rfl, fun m hm => bne_iff_ne.mpr fun heq => ?_⟩
  exact hnames.2.2 m.1 (List.mem_map_of_mem hm) key List.mem_cons_self heq.symm

theorem itemsOf_of_mem {ms : List (String × Json)} (hnames : (ms.map Prod.fst).Nodup)
    {key : String} {vs : List Json} (h : (key, .list vs) ∈ ms) :
    itemsOf key (.object ms) = vs := by
  rw [itemsOf, Json.field?, lookup_eq_some_of_mem hnames h]
  rfl

theorem itemsOf_of_notMem {ms : List (String × Json)} {key : String}
    (h : ∀ vs, (key, .list vs) ∉ ms) : itemsOf key (.object ms) = [] := by
  rw [itemsOf, Json.field?]
  cases hfield : ms.lookup key with
  | none => rfl
  | some v =>
      obtain ⟨ms₁, ms₂, rfl, -⟩ := List.lookup_eq_some_iff.mp hfield
      cases v with
      | list vs => exact absurd (List.mem_append_right _ List.mem_cons_self) (h vs)
      | _ => rfl

/-- The list is what the object has under the key, and empty if that is no list. -/
structure Holds (ms : List (String × Json)) (key : String) (found : List Json) : Prop where
  list : ∀ vs, (key, .list vs) ∈ ms → found = vs
  other : (∀ vs, (key, .list vs) ∉ ms) → found = []

theorem holds_itemsOf {ms : List (String × Json)} (hnames : (ms.map Prod.fst).Nodup)
    (key : String) : Holds ms key (itemsOf key (.object ms)) :=
  ⟨fun _ => itemsOf_of_mem hnames, itemsOf_of_notMem⟩

/-- Nothing of an object is lost. In every encoding, compact, indented or any other, with any names
and values beside the entries and with anything around it that has no brace of the wrong kind, the
entries are exactly those of the object. A member that is absent or no list has none, and does not
change the other one. Numbers are integers of 64 bits, and no more than 127 brackets are open at a
time. -/
theorem entries_of_encoded {ms : List (String × Json)} (hnames : (ms.map Prod.fst).Nodup)
    (hvalues : ∀ m ∈ ms, Json.Readable Json.Number.IsWord 126 m.2) :
    Json.Encodes Json.Number.IsWord (Json.compact (.object ms)) (.object ms) ∧
      Json.Encodes Json.Number.IsWord (Json.indented (.object ms)) (.object ms) ∧
      ∀ o, Json.Encodes Json.Number.IsWord o (.object ms) → ∀ a b : String,
        '{' ∉ a.toList → '}' ∉ b.toList →
        Holds ms "issues" (entries (a ++ o ++ b)).issues ∧
          Holds ms "suggestions" (entries (a ++ o ++ b)).suggestions := by
  have hreadable : Json.Readable Json.Number.IsWord Json.maxDepth (.object ms) :=
    Json.readable_object_iff.mpr ⟨hnames, hvalues⟩
  refine ⟨Json.encodes_compact hreadable, Json.encodes_indented hreadable,
    fun o ho a b ha hb => ?_⟩
  have hread := Json.readText_encoded Json.Number.IsWord.kept ho hreadable
  rw [entries_of_read ha hb ho.isObject.inBraces hread]
  exact ⟨holds_itemsOf hnames "issues", holds_itemsOf hnames "suggestions"⟩

/-- The issues stand between other members, and the suggestions are no list. -/
theorem entries_of_encoded_issues :
    let ms : List (String × Json) := [("suggestions", .null),
      ("issues", .list [.text "\x7b", .number (.integer (-7))]), ("note", .object [])]
    (ms.map Prod.fst).Nodup ∧ (∀ m ∈ ms, Json.Readable Json.Number.IsWord 126 m.2) ∧
      entries ("\x7d So: " ++ Json.indented (.object ms) ++ " \x7b") =
        ⟨[.text "\x7b", .number (.integer (-7))], []⟩ := by
  intro ms
  have hnames : (ms.map Prod.fst).Nodup := by decide
  have hvalues : ∀ m ∈ ms, Json.Readable Json.Number.IsWord 126 m.2 := by
    simp [ms, Json.Readable, Json.ReadableMembers, Json.ReadableItems, Json.Number.IsWord]
  obtain ⟨-, hindented, hfound⟩ := entries_of_encoded hnames hvalues
  obtain ⟨hissues, hsuggestions⟩ :=
    hfound _ hindented "\x7d So: " " \x7b" (by decide) (by decide)
  refine ⟨hnames, hvalues, ?_⟩
  have hfirst := hissues.list _ (List.mem_cons_of_mem _ List.mem_cons_self)
  have hsecond := hsuggestions.other (by simp [ms])
  generalize entries ("\x7d So: " ++ Json.indented (.object ms) ++ " \x7b") = e at *
  obtain ⟨issues, suggestions⟩ := e
  rw [show issues = _ from hfirst, show suggestions = _ from hsecond]

end CodeReview.Reply
