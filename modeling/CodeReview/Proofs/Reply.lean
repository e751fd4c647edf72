import CodeReview.Proofs.Text.Slice
import CodeReview.Reply
import Mathlib

/-!
The object is taken out of what a model writes around it: the span of a reply is the one part in
braces that has no opening brace before it and no closing brace after it. Every other part in braces
lies inside of it.
-/

namespace CodeReview.Reply

/-- A text in three parts. The one in the middle is in braces, there is no opening brace before it
and no closing brace after it. -/
structure Cut (text before span after : String) : Prop where
  text_eq : text = before ++ span ++ after
  braces : Text.InBraces span
  opening : '{' ∉ before.toList
  closing : '}' ∉ after.toList

/-! ### Cuts -/

variable {text p s q : String}

theorem Cut.chars (h : Cut text p s q) :
    text.toList = p.toList ++ (s.toList ++ q.toList) := by
  rw [h.text_eq, String.toList_append, String.toList_append, List.append_assoc]

/-- A part in braces lies between the parts of a cut that are not in braces. -/
theorem Cut.contains (h : Cut text p s q) {a t b : String} (htext : text = a ++ t ++ b)
    (ht : Text.InBraces t) : ∃ c d, a = p ++ c ∧ s = c ++ t ++ d ∧ b = d ++ q := by
  obtain ⟨t₁, ht₁⟩ := List.head?_eq_some_iff.mp ht.opens
  obtain ⟨t₂, ht₂⟩ := List.getLast?_eq_some_iff.mp ht.closes
  have hchars : a.toList ++ '{' :: (t₁ ++ b.toList) = p.toList ++ (s.toList ++ q.toList) := by
    rw [← h.chars, htext, String.toList_append, String.toList_append, ht₁, List.append_assoc,
      List.cons_append]
  obtain ⟨c, ha, hrest⟩ := Text.exists_append_of_notMem h.opening hchars
  have hrest' : (c ++ t₂) ++ '}' :: b.toList = s.toList ++ q.toList := by
    rw [hrest, ← List.cons_append, ← ht₁, ht₂, List.append_assoc, List.append_assoc]
    rfl
  obtain ⟨d, hb, hs⟩ := Text.exists_append_of_notMem_end h.closing hrest'
  refine ⟨String.ofList c, String.ofList d, ?_, ?_, ?_⟩ <;> apply String.toList_injective
  · simpa using ha
  · simpa [ht₂] using hs
  · simpa using hb

/-- There is one cut at most. -/
theorem Cut.unique (h : Cut text p s q) {p' s' q' : String} (h' : Cut text p' s' q') :
    p' = p ∧ s' = s ∧ q' = q := by
  obtain ⟨c, d, rfl, rfl, rfl⟩ := h.contains h'.text_eq h'.braces
  obtain ⟨c', d', hp, -, hq⟩ := h'.contains h.text_eq h.braces
  have hbefore := congrArg String.length hp
  have hafter := congrArg String.length hq
  rw [String.length_append, String.length_append] at hbefore hafter
  obtain rfl : c = "" := String.length_eq_zero_iff.mp (by omega)
  obtain rfl : d = "" := String.length_eq_zero_iff.mp (by omega)
  simp

theorem Cut.append (h : Cut text p s q) {a b : String} (ha : '{' ∉ a.toList) (hb : '}' ∉ b.toList) :
    Cut (a ++ text ++ b) (a ++ p) s (q ++ b) where
  text_eq := by simp only [h.text_eq, String.append_assoc]
  braces := h.braces
  opening := by simpa using ⟨ha, h.opening⟩
  closing := by simpa using ⟨h.closing, hb⟩

/-- A text has a cut when there is an opening brace before a closing one. -/
theorem exists_cut {a b c : String} (h : text = a ++ "\x7b" ++ b ++ "\x7d" ++ c) :
    ∃ p s q, Cut text p s q := by
  have hchars : a.toList ++ '{' :: (b.toList ++ '}' :: c.toList) = text.toList := by
    rw [h]
    simp
  have hopen : '{' ∈ text.toList := hchars ▸ List.mem_append_right _ List.mem_cons_self
  obtain ⟨p, r, htext, hp⟩ := List.eq_append_cons_of_mem hopen
  obtain ⟨e, -, hr⟩ := Text.exists_append_of_notMem hp (hchars.trans htext)
  have hclose : '}' ∈ '{' :: r := by simp [hr]
  obtain ⟨w, q, hcut, hq⟩ := Text.exists_lastMark hclose
  refine ⟨String.ofList p, String.ofList (w ++ ['}']), String.ofList q, ?_, ⟨?_, by simp⟩,
    by simpa using hp, by simpa using hq⟩
  · apply String.toList_injective
    simpa [hcut] using htext
  · cases w with
    | nil => exact absurd (List.cons.inj hcut).1 (by decide)
    | cons d w =>
        obtain rfl := (List.cons.inj hcut).1
        simp

theorem Cut.exists_braces (h : Cut text p s q) :
    ∃ a b c, text = a ++ "\x7b" ++ b ++ "\x7d" ++ c := by
  obtain ⟨s₁, hs₁⟩ := List.head?_eq_some_iff.mp h.braces.opens
  obtain ⟨s₂, hs₂⟩ := List.getLast?_eq_some_iff.mp h.braces.closes
  cases s₂ with
  | nil => exact absurd (List.cons.inj (hs₁.symm.trans hs₂)).1 (by decide)
  | cons d b =>
      obtain rfl := (List.cons.inj (hs₁.symm.trans hs₂)).1
      refine ⟨p, String.ofList b, q, String.toList_injective ?_⟩
      rw [h.chars, hs₂]
      simp

/-- What has no brace of the wrong kind around it has the braces of the whole text. -/
theorem Cut.exists_cut_of_append {a b : String} (h : Cut (a ++ text ++ b) p s q)
    (ha : '{' ∉ a.toList) (hb : '}' ∉ b.toList) : ∃ p s q, Cut text p s q := by
  obtain ⟨x, y, z, hbraces⟩ := h.exists_braces
  have hchars : x.toList ++ '{' :: (y.toList ++ '}' :: z.toList) =
      a.toList ++ (text.toList ++ b.toList) := by
    simpa using congrArg String.toList hbraces.symm
  obtain ⟨c, -, hrest⟩ := Text.exists_append_of_notMem ha hchars
  have hrest' : (c ++ '{' :: y.toList) ++ '}' :: z.toList = text.toList ++ b.toList := by
    rw [hrest, List.append_assoc, List.cons_append]
  obtain ⟨d, -, htext⟩ := Text.exists_append_of_notMem_end hb hrest'
  refine exists_cut (a := String.ofList c) (b := y) (c := String.ofList d)
    (String.toList_injective ?_)
  simpa using htext

/-! ### Bounds -/

/-- The two places that are found in a text are those of its cut. -/
theorem Cut.bounds?_eq (h : Cut text p s q) : bounds? (Text.bytes text) =
    some ((Text.bytes p).length, (Text.bytes p).length + (Text.bytes s).length) := by
  obtain ⟨s₁, hs₁⟩ := List.head?_eq_some_iff.mp h.braces.opens
  obtain ⟨s₂, hs₂⟩ := List.getLast?_eq_some_iff.mp h.braces.closes
  have hs : s = String.ofList s₂ ++ String.singleton '}' :=
    String.toList_injective (by simpa using hs₂)
  have hfirst : text = p ++ String.singleton '{' ++ (String.ofList s₁ ++ q) := by
    refine String.toList_injective ?_
    rw [h.chars, hs₁]
    simp
  have hlast : text = p ++ String.ofList s₂ ++ String.singleton '}' ++ q := by
    rw [h.text_eq, hs]
    simp only [String.append_assoc]
  have hstart : Text.find? '{' (Text.bytes text) = some (Text.bytes p).length := by
    rw [hfirst, Text.find?_append (by decide) h.opening]
  have hstop : Text.rfind? '}' (Text.bytes text) =
      some ((Text.bytes p).length + (Text.bytes (String.ofList s₂)).length) := by
    rw [hlast, Text.rfind?_append (by decide) _ h.closing, Text.bytes_append, List.length_append]
  have hlength : (Text.bytes s).length = (Text.bytes (String.ofList s₂)).length + 1 := by
    rw [hs, Text.bytes_append, Text.bytes_singleton (by decide), List.length_append,
      List.length_singleton]
  rw [bounds?, hstart, hstop, hlength, Option.bind_some, Option.bind_some,
    if_neg (Nat.not_lt_of_le (Nat.le_add_right _ _)), Nat.add_assoc]

/-- Only where there is an opening brace before a closing one the places are in order. -/
theorem exists_cut_of_bounds? {bounds : Nat × Nat} (h : bounds? (Text.bytes text) = some bounds) :
    ∃ p s q, Cut text p s q := by
  obtain ⟨start, hstart, h⟩ := Option.bind_eq_some_iff.mp h
  obtain ⟨last, hlast, h⟩ := Option.bind_eq_some_iff.mp h
  split at h
  · cases h
  rename_i hle
  obtain ⟨p, r, htext, -, rfl⟩ := (Text.find?_eq_some_iff (by decide)).mp hstart
  obtain ⟨u, q, htext', -, rfl⟩ := (Text.rfind?_eq_some_iff (by decide)).mp hlast
  have hchars : p.toList ++ '{' :: r.toList = u.toList ++ '}' :: q.toList := by
    simpa using congrArg String.toList (htext.symm.trans htext')
  rcases List.append_eq_append_iff.mp hchars with ⟨b, hu, hb⟩ | ⟨b, hp, hb⟩
  · cases b with
    | nil => exact absurd (List.cons.inj hb).1 (by decide)
    | cons d b =>
        obtain rfl := (List.cons.inj hb).1
        refine exists_cut (a := p) (b := String.ofList b) (c := q) (String.toList_injective ?_)
        rw [htext']
        simp [hu]
  · cases b with
    | nil => exact absurd (List.cons.inj hb).1 (by decide)
    | cons d b =>
        -- The closing brace would stand before the opening one.
        have hpu : p = u ++ String.ofList (d :: b) := String.toList_injective (by simpa using hp)
        have hpos : 0 < (Text.bytes (String.ofList (d :: b))).length := by
          rw [Text.bytes_ofList, List.flatMap_cons, List.length_append]
          exact Nat.add_pos_left (List.length_pos_iff.mpr (Text.utf8EncodeChar_ne_nil d)) _
        rw [hpu, Text.bytes_append, List.length_append] at hle
        omega

/-! ### Spans -/

/-- The span of a reply is the part in braces of its cut. -/
theorem span?_eq_some_iff : span? text = some s ↔ ∃ p q, Cut text p s q := by
  have hcut {p s q : String} (h : Cut text p s q) : span? text = some s := by
    rw [span?, h.bounds?_eq, Option.bind_some, h.text_eq]
    exact Text.slice?_append p s q
  constructor
  · intro h
    obtain ⟨bounds, hbounds, -⟩ := Option.bind_eq_some_iff.mp h
    obtain ⟨p, s', q, h'⟩ := exists_cut_of_bounds? hbounds
    obtain rfl := Option.some.inj ((hcut h').symm.trans h)
    exact ⟨p, q, h'⟩
  · rintro ⟨p, q, h⟩
    exact hcut h

/-- The span of a reply stands in braces, with no opening brace before it and no closing brace after
it. -/
theorem span?_spec {text span : String} (h : span? text = some span) :
    Text.InBraces span ∧
      ∃ a b, text = a ++ span ++ b ∧ '{' ∉ a.toList ∧ '}' ∉ b.toList := by
  obtain ⟨a, b, h⟩ := span?_eq_some_iff.mp h
  exact ⟨h.braces, a, b, h.text_eq, h.opening, h.closing⟩

/-- Text without a brace of the wrong kind around a reply does not change its span. -/
theorem span?_append {a b : String} (ha : '{' ∉ a.toList) (hb : '}' ∉ b.toList) (text : String) :
    span? (a ++ text ++ b) = span? text := by
  cases hspan : span? text with
  | some s =>
      obtain ⟨p, q, h⟩ := span?_eq_some_iff.mp hspan
      exact span?_eq_some_iff.mpr ⟨_, _, h.append ha hb⟩
  | none =>
      by_contra hsome
      obtain ⟨s, hs⟩ := Option.ne_none_iff_exists'.mp hsome
      obtain ⟨p, q, h⟩ := span?_eq_some_iff.mp hs
      obtain ⟨p, s, q, h⟩ := h.exists_cut_of_append ha hb
      rw [span?_eq_some_iff.mpr ⟨p, q, h⟩] at hspan
      cases hspan

/-- A text in braces is its own span. -/
theorem span?_of_inBraces {text : String} (h : Text.InBraces text) : span? text = some text :=
  span?_eq_some_iff.mpr ⟨"", "", ⟨by simp, h, by simp, by simp⟩⟩

/-- A text with a closing brace, cut after the last one. -/
theorem exists_lastBrace {t : String} (ht : '}' ∈ t.toList) :
    ∃ u d, t = u ++ d ∧ u.toList.getLast? = some '}' ∧ '}' ∉ d.toList := by
  obtain ⟨us, ds, hchars, hds⟩ := Text.exists_lastMark ht
  refine ⟨String.ofList (us ++ ['}']), String.ofList ds, ?_, by simp, by simpa using hds⟩
  apply String.toList_injective
  simpa using hchars

/-- A text has a span exactly if an opening brace stands before a closing one. Then it has one cut,
whose part in braces is the span: every part in braces lies inside of it, so that none is longer,
and it is its own span. The two places found in the bytes of a text fall between characters,
whatever stands around the braces, so that the part between them always exists. -/
theorem span?_unique_cut (text : String) :
    ((span? text).isSome ↔ ∃ a b c, text = a ++ "\x7b" ++ b ++ "\x7d" ++ c) ∧
      (∀ s, span? text = some s → span? s = some s ∧ ∃ p q,
        (∀ p' s' q', Cut text p' s' q' ↔ p' = p ∧ s' = s ∧ q' = q) ∧
          ∀ a t b, text = a ++ t ++ b → Text.InBraces t →
            t.length ≤ s.length ∧ ∃ c d, a = p ++ c ∧ s = c ++ t ++ d ∧ b = d ++ q) ∧
      ∀ i j, bounds? (Text.bytes text) = some (i, j) →
        Text.isBoundary (Text.bytes text) i ∧ Text.isBoundary (Text.bytes text) j ∧
          ∃ s, Text.slice? text i j = some s ∧ span? text = some s := by
  refine ⟨⟨fun h => ?_, ?_⟩, fun s hs => ?_, fun i j hbounds => ?_⟩
  · obtain ⟨s, hs⟩ := Option.isSome_iff_exists.mp h
    obtain ⟨p, q, hcut⟩ := span?_eq_some_iff.mp hs
    exact hcut.exists_braces
  · rintro ⟨a, b, c, h⟩
    obtain ⟨p, s, q, hcut⟩ := exists_cut h
    exact Option.isSome_iff_exists.mpr ⟨s, span?_eq_some_iff.mpr ⟨p, q, hcut⟩⟩
  · obtain ⟨p, q, hcut⟩ := span?_eq_some_iff.mp hs
    refine ⟨span?_of_inBraces hcut.braces, p, q, fun p' s' q' => ⟨hcut.unique, ?_⟩,
      fun a t b htext ht => ?_⟩
    · rintro ⟨rfl, rfl, rfl⟩
      exact hcut
    · obtain ⟨c, d, ha, hst, hb⟩ := hcut.contains htext ht
      refine ⟨?_, c, d, ha, hst, hb⟩
      rw [hst, String.length_append, String.length_append]
      omega
  · obtain ⟨p, s, q, hcut⟩ := exists_cut_of_bounds? hbounds
    obtain ⟨rfl, rfl⟩ := Prod.mk.inj (Option.some.inj (hcut.bounds?_eq.symm.trans hbounds))
    have hstart := Text.isBoundary_append p (s ++ q)
    have hstop := Text.isBoundary_append (p ++ s) q
    rw [← Text.bytes_append, ← String.append_assoc, ← hcut.text_eq] at hstart
    rw [← Text.bytes_append, ← hcut.text_eq, Text.bytes_append, List.length_append] at hstop
    have hslice := Text.slice?_append p s q
    rw [← hcut.text_eq] at hslice
    exact ⟨hstart, hstop, s, hslice, span?_eq_some_iff.mpr ⟨p, q, hcut⟩⟩

/-- The braces of a text stand between characters of two bytes, and one inside of them has three. -/
theorem span?_unique_cut_multibyte :
    let text := "é\x7d «\x7b\"日\":\x7b\x7d\x7d» \x7b"
    let s := "\x7b\"日\":\x7b\x7d\x7d"
    span? text = some s ∧ Text.slice? text 6 16 = some s ∧ Text.slice? text 5 16 = none ∧
      (∀ p' s' q', Cut text p' s' q' ↔ p' = "é\x7d «" ∧ s' = s ∧ q' = "» \x7b") := by
  intro text s
  have hcut : Cut text "é\x7d «" s "» \x7b" :=
    ⟨by decide, ⟨by decide, by decide⟩, by decide, by decide⟩
  have hspan : span? text = some s := span?_eq_some_iff.mpr ⟨_, _, hcut⟩
  obtain ⟨-, hspans, hplaces⟩ := span?_unique_cut text
  have hbounds : bounds? (Text.bytes text) = some (6, 16) := by decide +kernel
  obtain ⟨-, -, s', hslice, hs'⟩ := hplaces 6 16 hbounds
  obtain rfl := Option.some.inj (hspan.symm.trans hs')
  obtain ⟨-, p, q, hunique, -⟩ := hspans s hspan
  obtain ⟨rfl, -, rfl⟩ := (hunique _ _ _).mp hcut
  exact ⟨hspan, hslice, by decide +kernel, hunique⟩

/-- The entries of a reply with text around it are those of the part in braces. -/
theorem entries_append {a b : String} (ha : '{' ∉ a.toList) (hb : '}' ∉ b.toList) {text : String}
    (h : Text.InBraces text) : entries (a ++ text ++ b) = decode text := by
  rw [entries, span?_append ha hb, span?_of_inBraces h]

/-- If the part in braces can be read, its entries are the items of its two members. -/
theorem entries_of_read {a b : String} (ha : '{' ∉ a.toList) (hb : '}' ∉ b.toList) {text : String}
    (h : Text.InBraces text) {v : Json} (hread : Json.readText .value text = .ok v) :
    entries (a ++ text ++ b) = ⟨itemsOf "issues" v, itemsOf "suggestions" v⟩ := by
  rw [entries_append ha hb h, decode, hread]

end CodeReview.Reply
