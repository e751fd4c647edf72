import CodeReview.Proofs.Json.Acceptance
import CodeReview.Proofs.Json.Float

/-!
Encodings of values. A text encodes a value when it stands for it, with any blanks between the parts
and any escapes in the texts, and with the numbers written as the printer writes them. Both layouts
of the printer are encodings, and what is read of an encoding is the value.
-/

namespace CodeReview.Json

/-- The text of a number with the property. -/
inductive Rendered (P : Number → Prop) : Bytes → Json → Prop where
  | number {n : Number} (h : P n) : Rendered P (Text.bytes n.render) (.number n)

/-- The text stands for the value, and its numbers have the property. -/
def Encodes (P : Number → Prop) (t : String) (v : Json) : Prop :=
  ∃ depth, (Grammar.meant (Rendered P)).Derives depth (Text.bytes t) v

section Encoding

variable {P : Number → Prop}

/-- A value is encoded with as many brackets inside of each other as the value needs. -/
theorem derives_of_readable {number : Bytes → Json → Prop} {depth depth' : Nat} {t : Bytes}
    {v : Json} (h : (Grammar.meant number).Derives depth t v) (hv : Readable P depth' v) :
    (Grammar.meant number).Derives depth' t v := by
  -- The induction is on the depth that is given; the one that the value needs follows it.
  induction depth generalizing depth' t v with
  | zero => exact Grammar.derives_scalar h
  | succ depth ih =>
      obtain h | ⟨ts, vs, rfl, hbody, rfl⟩ | ⟨ts, ms, rfl, hbody, hnames, rfl⟩ := h
      · exact Grammar.derives_scalar h
      · cases depth' with
        | zero => simp [Grammar.meant, Readable] at hv
        | succ depth' =>
            change Readable P (depth' + 1) (.list vs) at hv
            rw [readable_list_iff] at hv
            exact Grammar.derives_list (hbody.mono fun t v hmem h => ih h (hv v hmem))
      · cases depth' with
        | zero => simp [Readable] at hv
        | succ depth' =>
            rw [readable_object_iff] at hv
            exact Grammar.derives_object (hbody.mono fun t m hmem h => ih h (hv.2 m hmem))
              ⟨hnames, rfl⟩

theorem encodes_write {layout : Layout} (hblank : layout.IsBlank) {depth : Nat} {v : Json}
    (hv : Readable P depth v) : Encodes P (write layout 0 "" v) v := by
  have hrenders : Renders layout P (Rendered P) .number := ⟨hblank, fun _ h => .number h⟩
  have hkept : Readable (fun n => Json.number n = .number n) depth v := hv.mono fun _ _ => rfl
  have hderives := derives_write hrenders v 0 hv
  rw [mapNumbers_eq_self hkept] at hderives
  exact ⟨depth, hderives⟩

theorem encodes_compact {depth : Nat} {v : Json} (hv : Readable P depth v) :
    Encodes P (compact v) v :=
  encodes_write Layout.isBlank_compact hv

theorem encodes_indented {depth : Nat} {v : Json} (hv : Readable P depth v) :
    Encodes P (indented v) v :=
  encodes_write Layout.isBlank_indented hv

/-- Whatever encoding of a value is read, the value is what comes out. -/
theorem takes_encoded (hkept : ∀ n, P n → n.Kept) {depth : Nat} {t : String} {v : Json}
    (ht : Encodes P t v) (hv : Readable P depth v) :
    Takes (Reader.value depth) (Text.bytes t) v := by
  obtain ⟨_, hderives⟩ := ht
  refine (takes_meant ?_ (derives_of_readable hderives hv)).1
  rintro _ _ ⟨hn⟩ depth
  have hlegible := (hkept _ hn).legible
  have htakes := hlegible.takes depth
  rw [(hkept _ hn).same] at htakes
  exact ⟨htakes, hlegible.starts⟩

theorem readText_encoded (hkept : ∀ n, P n → n.Kept) {t : String} {v : Json}
    (ht : Encodes P t v) (hv : Readable P maxDepth v) : readText .value t = .ok v :=
  readText_of_takes (takes_encoded hkept ht hv)

theorem readText_compact (hkept : ∀ n, P n → n.Kept) {v : Json} (hv : Readable P maxDepth v) :
    readText .value (compact v) = .ok v :=
  readText_encoded hkept (encodes_compact hv) hv

end Encoding

/-! ### Encodings by kind -/

section Derivations

variable {P : Number → Prop} {depth : Nat} {t : Bytes}

theorem scalar_of_derives {v : Json} (h : (Grammar.meant (Rendered P)).Derives depth t v)
    (hlist : ∀ vs, v ≠ .list vs) (hobject : ∀ ms, v ≠ .object ms) :
    ScalarMeant (Rendered P) t v := by
  cases depth with
  | zero => exact h
  | succ depth =>
      obtain h | ⟨ts, vs, -, -, rfl⟩ | ⟨ts, ms, -, -, -, rfl⟩ := h
      · exact h
      · exact absurd rfl (hlist vs)
      · exact absurd rfl (hobject ms)

theorem form_of_derives {v : Json} (h : (Grammar.meant (Rendered P)).Derives depth t v) :
    Form depth t := by
  refine form_of_meant ?_ h
  rintro _ _ ⟨_⟩
  exact scalarForm_render _

theorem text_of_derives {s : String}
    (h : (Grammar.meant (Rendered P)).Derives depth t (.text s)) :
    ∃ u, t = byte '"' :: u ∧ Spells u s := by
  obtain _ | _ | ⟨⟨⟩⟩ | hs := scalar_of_derives h nofun nofun
  exact ⟨_, rfl, hs⟩

theorem number_of_derives {n : Number}
    (h : (Grammar.meant (Rendered P)).Derives depth t (.number n)) :
    P n ∧ t = Text.bytes n.render := by
  obtain _ | _ | ⟨⟨hn⟩⟩ | _ := scalar_of_derives h nofun nofun
  exact ⟨hn, rfl⟩

theorem list_of_derives {vs : List Json}
    (h : (Grammar.meant (Rendered P)).Derives depth t (.list vs)) :
    ∃ d ts, depth = d + 1 ∧ t = byte '[' :: ts ∧
      ListBody ((Grammar.meant (Rendered P)).Derives d) ts vs := by
  have hscalar {s : Bytes} : ¬ ScalarMeant (Rendered P) s (.list vs) := by
    rintro (_ | _ | ⟨⟨_⟩⟩ | _)
  cases depth with
  | zero => exact absurd h hscalar
  | succ depth =>
      obtain h | ⟨ts, vs, ht, hbody, hvs⟩ | ⟨ts, ms, -, -, -, hobject⟩ := h
      · exact absurd h hscalar
      · cases hvs
        exact ⟨depth, ts, rfl, ht, hbody⟩
      · cases hobject

theorem object_of_derives {ms : List (String × Json)}
    (h : (Grammar.meant (Rendered P)).Derives depth t (.object ms)) :
    ∃ d ts, depth = d + 1 ∧ t = byte '{' :: ts ∧ (ms.map Prod.fst).Nodup ∧
      ObjectBody Spells (fun _ => (Grammar.meant (Rendered P)).Derives d) ts ms := by
  have hscalar {s : Bytes} : ¬ ScalarMeant (Rendered P) s (.object ms) := by
    rintro (_ | _ | ⟨⟨_⟩⟩ | _)
  cases depth with
  | zero => exact absurd h hscalar
  | succ depth =>
      obtain h | ⟨ts, vs, -, -, hlist⟩ | ⟨ts, ms, ht, hbody, hnames, hms⟩ := h
      · exact absurd h hscalar
      · cases hlist
      · cases hms
        exact ⟨depth, ts, rfl, ht, hnames, hbody⟩

end Derivations

/-- What encodes an object is one object of the syntax. -/
theorem Encodes.isObject {P : Number → Prop} {t : String} {ms : List (String × Json)}
    (h : Encodes P t (.object ms)) : IsObject t := by
  obtain ⟨depth, hderives⟩ := h
  have hform := form_of_derives hderives
  obtain ⟨d, ts, -, ht, -, -⟩ := object_of_derives hderives
  rw [ht] at hform
  obtain ⟨depth', hbody⟩ := objectForm_of_form hform
  exact ⟨depth', ts, hbody, ht⟩

/-- A whole number of 64 bits, with or without a sign. -/
def Number.IsWord : Number → Prop
  | .integer i => -2 ^ 63 ≤ i ∧ i < 2 ^ 64
  | .real _ => False

theorem Number.IsWord.kept : ∀ n : Number, n.IsWord → n.Kept
  | .integer _, h => kept_integer h.1 h.2

end CodeReview.Json
