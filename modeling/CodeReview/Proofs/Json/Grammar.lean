import CodeReview.Proofs.Json.Numeral
import CodeReview.Proofs.Json.Spelling

/-!
How values are written. Lists and objects are put together from brackets, commas, colons and blanks
in one way only; what stands between them is left to a grammar. Two grammars are used: `bare` knows
nothing but the syntax, and `meant` says which value a text stands for.
-/

namespace CodeReview.Json

/-! ### Lists and objects -/

section Bodies

variable {κ α β : Type}

/-- The items of a list up to its closing bracket, each of them written as `item` says. -/
inductive ListText (item : Bytes → α → Prop) : Bytes → List α → Prop where
  | last {w t w' : Bytes} {a : α} (before : Spaces w) (value : item t a) (after : Spaces w') :
    ListText item (w ++ (t ++ (w' ++ [byte ']']))) [a]
  | more {w t w' ts : Bytes} {a : α} {as : List α} (before : Spaces w) (value : item t a)
    (after : Spaces w') (rest : ListText item ts as) :
    ListText item (w ++ (t ++ (w' ++ byte ',' :: ts))) (a :: as)

/-- A list after its opening bracket. -/
inductive ListBody (item : Bytes → α → Prop) : Bytes → List α → Prop where
  | empty {w : Bytes} (blank : Spaces w) : ListBody item (w ++ [byte ']']) []
  | items {ts : Bytes} {as : List α} (h : ListText item ts as) : ListBody item ts as

/-- The members of an object up to its closing bracket, each name written as `name` says and each
value as `value` says. The opening mark of the first name is not part of the text. -/
inductive MembersText (name : Bytes → κ → Prop) (value : κ → Bytes → α → Prop) :
    Bytes → List (κ × α) → Prop where
  | last {k : κ} {n t w₁ w₂ w₃ : Bytes} {a : α} (named : name n k) (colon : Spaces w₁)
    (before : Spaces w₂) (written : value k t a) (after : Spaces w₃) :
    MembersText name value (n ++ (w₁ ++ byte ':' :: (w₂ ++ (t ++ (w₃ ++ [byte '}']))))) [(k, a)]
  | more {k : κ} {n t w₁ w₂ w₃ w₄ ts : Bytes} {a : α} {ms : List (κ × α)} (named : name n k)
    (colon : Spaces w₁) (before : Spaces w₂) (written : value k t a) (after : Spaces w₃)
    (mark : Spaces w₄) (rest : MembersText name value ts ms) :
    MembersText name value
      (n ++ (w₁ ++ byte ':' :: (w₂ ++ (t ++ (w₃ ++ byte ',' :: (w₄ ++ byte '"' :: ts))))))
      ((k, a) :: ms)

/-- An object after its opening bracket. -/
inductive ObjectBody (name : Bytes → κ → Prop) (value : κ → Bytes → α → Prop) :
    Bytes → List (κ × α) → Prop where
  | empty {w : Bytes} (blank : Spaces w) : ObjectBody name value (w ++ [byte '}']) []
  | members {w ts : Bytes} {ms : List (κ × α)} (blank : Spaces w)
    (h : MembersText name value ts ms) : ObjectBody name value (w ++ byte '"' :: ts) ms

theorem MembersText.exists_append {name : Bytes → κ → Prop} {value : κ → Bytes → α → Prop}
    {ts : Bytes} {ms : List (κ × α)} (h : MembersText name value ts ms) :
    ∃ us, ts = us ++ [byte '}'] := by
  induction h with
  | @last k n t w₁ w₂ w₃ => exact ⟨n ++ (w₁ ++ byte ':' :: (w₂ ++ (t ++ w₃))), by simp⟩
  | @more k n t w₁ w₂ w₃ w₄ _ _ _ _ _ _ _ _ _ _ ih =>
      obtain ⟨us, rfl⟩ := ih
      exact ⟨n ++ (w₁ ++ byte ':' :: (w₂ ++ (t ++ (w₃ ++ byte ',' :: (w₄ ++ byte '"' :: us))))),
        by simp⟩

/-- An object ends with its closing bracket. -/
theorem ObjectBody.exists_append {name : Bytes → κ → Prop} {value : κ → Bytes → α → Prop}
    {ts : Bytes} {ms : List (κ × α)} (h : ObjectBody name value ts ms) :
    ∃ us, ts = us ++ [byte '}'] := by
  cases h with
  | @empty w => exact ⟨w, rfl⟩
  | @members w ts ms _ h =>
      obtain ⟨us, rfl⟩ := h.exists_append
      exact ⟨w ++ byte '"' :: us, by simp⟩

theorem ListText.imp {item : Bytes → α → Prop} {item' : Bytes → β → Prop} {ts : Bytes}
    {as : List α} {bs : List β} (h : ListText item ts as)
    (himp : List.Forall₂ (fun a b => ∀ t, item t a → item' t b) as bs) : ListText item' ts bs := by
  induction h generalizing bs with
  | last before value after =>
      obtain _ | ⟨hfirst, ⟨⟩⟩ := himp
      exact .last before (hfirst _ value) after
  | more before value after _ ih =>
      obtain _ | ⟨hfirst, hmore⟩ := himp
      exact .more before (hfirst _ value) after (ih hmore)

/-- A list is written in the same way when its items are, each for another value. -/
theorem ListBody.imp {item : Bytes → α → Prop} {item' : Bytes → β → Prop} {ts : Bytes}
    {as : List α} {bs : List β} (h : ListBody item ts as)
    (himp : List.Forall₂ (fun a b => ∀ t, item t a → item' t b) as bs) : ListBody item' ts bs := by
  cases h with
  | empty blank =>
      cases himp
      exact .empty blank
  | items h => exact .items (h.imp himp)

theorem ListBody.mono {item item' : Bytes → α → Prop} {ts : Bytes} {as : List α}
    (hitem : ∀ t, ∀ a ∈ as, item t a → item' t a) (h : ListBody item ts as) :
    ListBody item' ts as :=
  h.imp (List.forall₂_same.mpr fun a ha t => hitem t a ha)

/-- A list is still one when nothing is made of its items. -/
theorem ListBody.forget {item : Bytes → α → Prop} {form : Bytes → Prop}
    (hitem : ∀ t a, item t a → form t) {ts : Bytes} {as : List α} (h : ListBody item ts as) :
    ListBody (fun t (_ : Unit) => form t) ts (as.map fun _ => ()) :=
  h.imp (List.forall₂_map_right_iff.mpr (List.forall₂_same.mpr fun a _ t => hitem t a))

section Objects

variable {κ' : Type} {name : Bytes → κ → Prop} {name' : Bytes → κ' → Prop}
  {value : κ → Bytes → α → Prop} {value' : κ' → Bytes → β → Prop} {ts : Bytes}
  {ms : List (κ × α)} {ms' : List (κ' × β)}

theorem MembersText.imp (h : MembersText name value ts ms)
    (himp : List.Forall₂ (fun m m' => (∀ n, name n m.1 → name' n m'.1) ∧
      ∀ t, value m.1 t m.2 → value' m'.1 t m'.2) ms ms') : MembersText name' value' ts ms' := by
  induction h generalizing ms' with
  | last named colon before written after =>
      obtain _ | ⟨⟨hname, hvalue⟩, ⟨⟩⟩ := himp
      exact .last (hname _ named) colon before (hvalue _ written) after
  | more named colon before written after mark _ ih =>
      obtain _ | ⟨⟨hname, hvalue⟩, hmore⟩ := himp
      exact .more (hname _ named) colon before (hvalue _ written) after mark (ih hmore)

theorem ObjectBody.imp (h : ObjectBody name value ts ms)
    (himp : List.Forall₂ (fun m m' => (∀ n, name n m.1 → name' n m'.1) ∧
      ∀ t, value m.1 t m.2 → value' m'.1 t m'.2) ms ms') : ObjectBody name' value' ts ms' := by
  cases h with
  | empty blank =>
      cases himp
      exact .empty blank
  | members blank h => exact .members blank (h.imp himp)

theorem ObjectBody.mono {value' : κ → Bytes → α → Prop}
    (hvalue : ∀ t, ∀ m ∈ ms, value m.1 t m.2 → value' m.1 t m.2) (h : ObjectBody name value ts ms) :
    ObjectBody name value' ts ms :=
  h.imp (List.forall₂_same.mpr fun m hm => ⟨fun _ hn => hn, fun t => hvalue t m hm⟩)

end Objects

end Bodies

/-! ### Grammars -/

/-- How the values without parts and the names of members are written, and what is made of them. -/
structure Grammar (κ α : Type) where
  scalar : Bytes → α → Prop
  name : Bytes → κ → Prop
  list : List α → α
  /-- What members make up which object. -/
  object : List (κ × α) → α → Prop

/-- The text is written for the value, with at most so many containers inside of each other. -/
def Grammar.Derives {κ α : Type} (g : Grammar κ α) : (depth : Nat) → Bytes → α → Prop
  | 0, t, a => g.scalar t a
  | depth + 1, t, a =>
    g.scalar t a ∨
    (∃ ts as, t = byte '[' :: ts ∧ ListBody (g.Derives depth) ts as ∧ a = g.list as) ∨
    ∃ ts ms, t = byte '{' :: ts ∧ ObjectBody g.name (fun _ => g.Derives depth) ts ms ∧
      g.object ms a

namespace Grammar

variable {κ α : Type} {g : Grammar κ α} {depth : Nat}

theorem derives_scalar {t : Bytes} {a : α} (h : g.scalar t a) : g.Derives depth t a := by
  cases depth with
  | zero => exact h
  | succ depth => exact .inl h

theorem derives_list {ts : Bytes} {as : List α} (h : ListBody (g.Derives depth) ts as) :
    g.Derives (depth + 1) (byte '[' :: ts) (g.list as) :=
  .inr (.inl ⟨ts, as, rfl, h, rfl⟩)

theorem derives_object {ts : Bytes} {ms : List (κ × α)} {a : α}
    (h : ObjectBody g.name (fun _ => g.Derives depth) ts ms) (ha : g.object ms a) :
    g.Derives (depth + 1) (byte '{' :: ts) a :=
  .inr (.inr ⟨ts, ms, rfl, h, ha⟩)

end Grammar

/-! ### Syntax -/

inductive ScalarForm : Bytes → Prop where
  | null : ScalarForm (Text.bytes "null")
  | bool (b : Bool) : ScalarForm (Text.bytes (if b then "true" else "false"))
  | number {n : Numeral} {t : Bytes} (valid : n.Valid) (exponent : ExponentForm n.exponent t) :
    ScalarForm ((if n.negative then [byte '-'] else []) ++ (n.whole ++ (n.fractionText ++ t)))
  | text {t : Bytes} (h : TextForm t) : ScalarForm (byte '"' :: t)

theorem scalarForm_signed {n : Numeral} (h : n.Valid) : ScalarForm n.signed := by
  rw [n.signed_eq, Numeral.text]
  exact .number h n.exponentForm_exponentText

/-- The syntax of JSON, in which nothing is made of what is written. -/
def Grammar.bare : Grammar Unit Unit where
  scalar := fun t _ => ScalarForm t
  name := fun t _ => TextForm t
  list := fun _ => ()
  object := fun _ _ => True

/-- The text is one value of JSON, with at most so many containers inside of each other. -/
def Form (depth : Nat) (t : Bytes) : Prop :=
  Grammar.bare.Derives depth t ()

/-- An object of JSON after its opening bracket. -/
def ObjectForm (depth : Nat) (ts : Bytes) : Prop :=
  ∃ ms, ObjectBody Grammar.bare.name (fun _ => Grammar.bare.Derives depth) ts ms

/-! ### Meaning -/

/-- The value that a text without parts stands for. Which texts stand for which numbers is left
open. -/
inductive ScalarMeant (number : Bytes → Json → Prop) : Bytes → Json → Prop where
  | null : ScalarMeant number (Text.bytes "null") .null
  | bool (b : Bool) : ScalarMeant number (Text.bytes (if b then "true" else "false")) (.bool b)
  | number {t : Bytes} {v : Json} (h : number t v) : ScalarMeant number t v
  | text {t : Bytes} {s : String} (h : Spells t s) : ScalarMeant number (byte '"' :: t) (.text s)

/-- The values that texts stand for. No object has a name twice. -/
def Grammar.meant (number : Bytes → Json → Prop) : Grammar String Json where
  scalar := ScalarMeant number
  name := Spells
  list := .list
  object := fun ms v => (ms.map Prod.fst).Nodup ∧ v = .object ms

/-- A text that stands for a value is written in the syntax, if its numbers are. -/
theorem form_of_meant {number : Bytes → Json → Prop} (hnumber : ∀ t v, number t v → ScalarForm t)
    {depth : Nat} {t : Bytes} {v : Json} (h : (Grammar.meant number).Derives depth t v) :
    Form depth t := by
  have hscalar {s : Bytes} {v : Json} (h : ScalarMeant number s v) : ScalarForm s := by
    cases h with
    | null => exact .null
    | bool b => exact .bool b
    | number h => exact hnumber _ _ h
    | text h => exact .text h.form
  induction depth generalizing t v with
  | zero => exact hscalar h
  | succ depth ih =>
      obtain h | ⟨ts, vs, rfl, hbody, -⟩ | ⟨ts, ms, rfl, hbody, -⟩ := h
      · exact Grammar.derives_scalar (hscalar h)
      · exact Grammar.derives_list (hbody.forget fun _ _ h => ih h)
      · have hmembers : List.Forall₂ (fun (m : String × Json) (_ : Unit × Unit) =>
            (∀ n, Spells n m.1 → TextForm n) ∧
              ∀ t, (Grammar.meant number).Derives depth t m.2 → Form depth t) ms
            (ms.map fun _ => ((), ())) :=
          List.forall₂_map_right_iff.mpr
            (List.forall₂_same.mpr fun _ _ => ⟨fun _ h => h.form, fun _ h => ih h⟩)
        exact Grammar.derives_object (hbody.imp hmembers) trivial

end CodeReview.Json
