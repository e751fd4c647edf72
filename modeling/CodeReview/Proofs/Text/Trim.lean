import CodeReview.Text.Blank
import Mathlib.Data.List.TakeWhile

/-!
Trimming only takes blanks away, and takes all of them: what is left is a middle part of the text
whose ends can be seen. A text with such ends is its own trimmed form.
-/

namespace CodeReview.Text

/-- The text shows something, and no blank character stands at either of its ends. -/
structure Trimmed (s : String) : Prop where
  shows : s.toList ≠ []
  first : ∀ c, s.toList.head? = some c → isBlank c = false
  last : ∀ c, s.toList.getLast? = some c → isBlank c = false

instance (s : String) : Decidable (Trimmed s) :=
  decidable_of_iff
    (s.toList ≠ [] ∧ s.toList.head?.any isBlank = false ∧ s.toList.getLast?.any isBlank = false)
    ⟨fun h => ⟨h.1, (Option.any_eq_false _ _).mp h.2.1, (Option.any_eq_false _ _).mp h.2.2⟩,
     fun h => ⟨h.shows, (Option.any_eq_false _ _).mpr h.first,
      (Option.any_eq_false _ _).mpr h.last⟩⟩

theorem dropWhile_isBlank_of_head {cs : List Char}
    (h : ∀ c, cs.head? = some c → isBlank c = false) : cs.dropWhile isBlank = cs := by
  cases cs with
  | nil => rfl
  | cons c cs => simp [h c rfl]

theorem head_dropWhile_isBlank {cs : List Char} {c : Char}
    (h : (cs.dropWhile isBlank).head? = some c) : isBlank c = false := by
  have hc := List.head?_dropWhile_not isBlank cs
  rw [h] at hc
  exact hc

/-- What trimming takes away is blank. -/
theorem trimChars_split (cs : List Char) :
    ∃ before after, cs = before ++ trimChars cs ++ after ∧
      before.all isBlank ∧ after.all isBlank := by
  let middle := cs.dropWhile isBlank
  refine ⟨cs.takeWhile isBlank, (middle.reverse.takeWhile isBlank).reverse, ?_, ?_, ?_⟩
  · rw [trimChars, List.append_assoc, ← List.reverse_append, List.takeWhile_append_dropWhile,
      List.reverse_reverse, List.takeWhile_append_dropWhile]
  · exact List.all_takeWhile
  · rw [List.all_reverse]
    exact List.all_takeWhile

theorem mem_of_mem_trim {s : String} {c : Char} (h : c ∈ (trim s).toList) : c ∈ s.toList := by
  obtain ⟨before, after, hsplit, -, -⟩ := trimChars_split s.toList
  rw [trim, String.toList_ofList] at h
  rw [hsplit]
  exact List.mem_append_left _ (List.mem_append_right _ h)

theorem trimChars_of_ends {cs : List Char} (hfirst : ∀ c, cs.head? = some c → isBlank c = false)
    (hlast : ∀ c, cs.getLast? = some c → isBlank c = false) : trimChars cs = cs := by
  have hrev : ∀ c, cs.reverse.head? = some c → isBlank c = false := by
    simpa using hlast
  rw [trimChars, dropWhile_isBlank_of_head hfirst, dropWhile_isBlank_of_head hrev,
    List.reverse_reverse]

/-- Blanks around a text that starts and ends with what can be seen are all that is trimmed. -/
theorem trimChars_append {before word after : List Char} (hbefore : before.all isBlank = true)
    (hafter : after.all isBlank = true) (hword : word ≠ [])
    (hfirst : ∀ c, word.head? = some c → isBlank c = false)
    (hlast : ∀ c, word.getLast? = some c → isBlank c = false) :
    trimChars (before ++ word ++ after) = word := by
  have hstart : (before ++ (word ++ after)).dropWhile isBlank = word ++ after := by
    rw [List.dropWhile_append_of_pos (List.all_eq_true.mp hbefore)]
    obtain ⟨c, cs, rfl⟩ := List.exists_cons_of_ne_nil hword
    exact dropWhile_isBlank_of_head hfirst
  have hend : (after.reverse ++ word.reverse).dropWhile isBlank = word.reverse := by
    rw [List.dropWhile_append_of_pos (by simpa using hafter)]
    exact dropWhile_isBlank_of_head (by simpa using hlast)
  rw [trimChars, List.append_assoc, hstart, List.reverse_append, hend, List.reverse_reverse]

theorem getLast_trimChars {cs : List Char} {c : Char} (h : (trimChars cs).getLast? = some c) :
    isBlank c = false := by
  rw [trimChars, List.getLast?_reverse] at h
  exact head_dropWhile_isBlank h

theorem trimChars_ne_nil {cs : List Char} (h : cs.all isBlank = false) : trimChars cs ≠ [] := by
  obtain ⟨before, after, hsplit, hbefore, hafter⟩ := trimChars_split cs
  intro hnil
  rw [hsplit, hnil, List.append_nil, List.all_append, hbefore, hafter] at h
  cases h

/-- The first character of the trimmed text is the first one that can be seen. -/
theorem head_trimChars {cs : List Char} {c : Char} (h : (trimChars cs).head? = some c) :
    isBlank c = false := by
  let middle := cs.dropWhile isBlank
  have hmiddle : middle = trimChars cs ++ (middle.reverse.takeWhile isBlank).reverse := by
    rw [trimChars, ← List.reverse_append, List.takeWhile_append_dropWhile, List.reverse_reverse]
  have hhead : middle.head? = some c := by
    rw [hmiddle, List.head?_append, h]
    rfl
  exact head_dropWhile_isBlank hhead

theorem allBlank_iff {s : String} : allBlank s = true ↔ ∀ c ∈ s.toList, isBlank c = true := by
  rw [allBlank, List.all_eq_true]

theorem trimmed_trim {s : String} (h : allBlank s = false) : Trimmed (trim s) := by
  constructor
  · rw [trim, String.toList_ofList]
    exact trimChars_ne_nil h
  · intro c hc
    rw [trim, String.toList_ofList] at hc
    exact head_trimChars hc
  · intro c hc
    rw [trim, String.toList_ofList] at hc
    exact getLast_trimChars hc

theorem Trimmed.trim_eq {s : String} (h : Trimmed s) : trim s = s := by
  rw [trim, trimChars_of_ends h.first h.last, String.ofList_toList]

theorem Trimmed.allBlank_eq {s : String} (h : Trimmed s) : allBlank s = false := by
  cases hs : s.toList with
  | nil => exact absurd hs h.shows
  | cons c cs =>
    have hc : isBlank c = false := h.first c (by rw [hs]; rfl)
    rw [allBlank, hs, List.all_cons, hc, Bool.false_and]

theorem nonBlank?_eq_some_iff {s t : String} :
    nonBlank? s = some t ↔ allBlank s = false ∧ t = trim s := by
  unfold nonBlank?
  cases allBlank s <;> simp [eq_comm]

theorem nonBlank?_eq_none_iff {s : String} : nonBlank? s = none ↔ allBlank s = true := by
  unfold nonBlank?
  cases allBlank s <;> simp

/-- Nothing is left of a blank text. -/
theorem trim_eq_empty_iff {s : String} : trim s = "" ↔ allBlank s = true := by
  constructor
  · intro h
    by_contra hs
    have hshows := (trimmed_trim (Bool.eq_false_iff.mpr hs)).shows
    rw [h] at hshows
    exact hshows rfl
  · intro h
    have hnil : s.toList.dropWhile isBlank = [] :=
      List.dropWhile_eq_nil_iff.mpr (allBlank_iff.mp h)
    rw [trim, trimChars, hnil]
    rfl

theorem nonBlank?_eq_guard (s : String) :
    nonBlank? s = Option.guard (fun t => decide (t ≠ "")) (trim s) := by
  unfold nonBlank? Option.guard
  cases h : allBlank s <;> simp [trim_eq_empty_iff, h]

theorem trimmed_of_nonBlank? {s t : String} (h : nonBlank? s = some t) : Trimmed t := by
  obtain ⟨hs, rfl⟩ := nonBlank?_eq_some_iff.mp h
  exact trimmed_trim hs

theorem Trimmed.nonBlank?_eq {s : String} (h : Trimmed s) : nonBlank? s = some s :=
  nonBlank?_eq_some_iff.mpr ⟨h.allBlank_eq, h.trim_eq.symm⟩

end CodeReview.Text
