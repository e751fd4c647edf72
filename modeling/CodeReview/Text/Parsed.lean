/-!
What readers give back: something that was read from the start of a text, and the rest of the text
with a proof that it is shorter. Loops over a text end because of this proof.
-/

namespace CodeReview

/-- Something read from the start of a text, and the part of the text after it. -/
structure Parsed {τ : Type} (α : Type) (start : List τ) where
  value : α
  rest : List τ
  shorter : rest.length < start.length

/-- What is read from the end of a text is read from the text. -/
def Parsed.widen {t s : List τ} (p : Parsed α t) (h : t.length ≤ s.length) : Parsed α s :=
  ⟨p.value, p.rest, Nat.lt_of_lt_of_le p.shorter h⟩

def Parsed.map {s : List τ} (f : α → β) (p : Parsed α s) : Parsed β s :=
  ⟨f p.value, p.rest, p.shorter⟩

/-- The part of a text after something that may have been empty. -/
abbrev Rest {τ : Type} (start : List τ) := { rest : List τ // rest.length ≤ start.length }

/-! ### Why a rest is shorter -/

theorem length_le_refl (s : List τ) : s.length ≤ s.length :=
  Nat.le_refl _

theorem length_tail_lt (a : τ) (rest : List τ) : rest.length < (a :: rest).length :=
  Nat.lt_succ_self _

theorem length_tail_le (a : τ) (rest : List τ) : rest.length ≤ (a :: rest).length :=
  Nat.le_succ _

theorem length_drop_lt_cons (a : τ) (rest : List τ) (n : Nat) :
    (rest.drop n).length < (a :: rest).length :=
  Nat.lt_succ_of_le (by simp only [List.length_drop]; omega)

theorem length_le_of_cons_le {a : τ} {rest start : List τ}
    (h : (a :: rest).length ≤ start.length) : rest.length ≤ start.length :=
  Nat.le_of_succ_le h

theorem Parsed.length_le {s : List τ} (p : Parsed α s) : p.rest.length ≤ s.length :=
  Nat.le_of_lt p.shorter

theorem Parsed.length_lt_cons {a : τ} {s : List τ} (p : Parsed α s) :
    p.rest.length < (a :: s).length :=
  Nat.lt_succ_of_lt p.shorter

theorem Parsed.length_le_of_cons_le {a : τ} {s start : List τ} (p : Parsed α s)
    (h : (a :: s).length ≤ start.length) : p.rest.length ≤ start.length :=
  Nat.le_trans (Nat.le_of_lt p.length_lt_cons) h

theorem Parsed.length_rest_lt {s : List τ} (p : Parsed α s) (r : Rest p.rest) :
    r.1.length < s.length :=
  Nat.lt_of_le_of_lt r.2 p.shorter

theorem Rest.length_le_of_cons_le {a : τ} {s start : List τ} (r : Rest s)
    (h : (a :: s).length ≤ start.length) : r.1.length ≤ start.length :=
  Nat.le_trans r.2 (Nat.le_of_succ_le h)

theorem Rest.length_lt_cons {a : τ} {s : List τ} (r : Rest s) : r.1.length < (a :: s).length :=
  Nat.lt_succ_of_le r.2

theorem length_dropWhile_le (p : τ → Bool) (s : List τ) : (s.dropWhile p).length ≤ s.length :=
  (List.dropWhile_suffix p).length_le

/-- What is left when the characters with the property are passed over. -/
def dropped {τ : Type} (p : τ → Bool) (s : List τ) : Rest s :=
  ⟨s.dropWhile p, length_dropWhile_le p s⟩

end CodeReview
