import CodeReview.Proofs.Text.Split

/-!
The runs of a text: the longest stretches of characters that share a property. A character without
the property ends a run, and belongs to none.
-/

namespace CodeReview.Text

/-- The longest stretches of characters with the property, from left to right. -/
def runs (p : Char → Bool) (cs : List Char) : List (List Char) :=
  (splitChars (fun c => !p c) cs).filter (· ≠ [])

variable {p : Char → Bool}

@[simp] theorem runs_nil : runs p [] = [] := rfl

/-- Runs do not reach across a character without the property. -/
theorem runs_append_cons {c : Char} (hc : p c = false) (a b : List Char) :
    runs p (a ++ c :: b) = runs p a ++ runs p b := by
  simp only [runs, splitChars_eq]
  rw [List.splitOnP_append_cons a b (by simpa using hc), List.filter_append]

@[simp] theorem runs_cons {c : Char} (hc : p c = false) (cs : List Char) :
    runs p (c :: cs) = runs p cs := by
  simpa using runs_append_cons hc [] cs

/-- A text in which every character has the property is one run. -/
theorem runs_of_all {w : List Char} (hw : w ≠ []) (h : ∀ c ∈ w, p c = true) : runs p w = [w] := by
  rw [runs, splitChars_eq, List.splitOnP_eq_singleton fun c hc => by simpa using h c hc]
  simp [hw]

/-- A run ends where the next character does not have the property. -/
theorem runs_append {w rest : List Char} (hw : w ≠ []) (h : ∀ c ∈ w, p c = true)
    (hrest : ∀ c, rest.head? = some c → p c = false) : runs p (w ++ rest) = w :: runs p rest := by
  cases rest with
  | nil => simp [runs_of_all hw h]
  | cons c rest =>
      have hc : p c = false := hrest c rfl
      rw [runs_append_cons hc, runs_of_all hw h, runs_cons hc, List.singleton_append]

end CodeReview.Text
