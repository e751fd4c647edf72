import CodeReview.Text.Split
import Mathlib.Data.List.Basic

/-!
The parts of a text are what stands between the marks: with the marks put back between them they are
the text again, and there is no mark inside of a part. What stands before the first mark and what
stands after the last one is told by the text.
-/

namespace CodeReview.Text

variable {isMark : Char → Bool}

theorem splitChars_cons (c : Char) (cs : List Char) :
    splitChars isMark (c :: cs) =
      if isMark c then [] :: splitChars isMark cs
      else (splitChars isMark cs).modifyHead (c :: ·) := by
  rw [splitChars, List.foldr_cons]
  cases isMark c <;> rfl

theorem splitChars_eq (cs : List Char) : splitChars isMark cs = cs.splitOnP isMark := by
  induction cs with
  | nil => rfl
  | cons c cs ih => rw [splitChars_cons, List.splitOnP_cons_eq_if_modifyHead, ih]

theorem not_isMark_of_mem_splitChars {cs part : List Char} (h : part ∈ splitChars isMark cs) :
    ∀ c ∈ part, isMark c = false := by
  induction cs generalizing part with
  | nil =>
      obtain rfl := List.mem_singleton.mp h
      simp
  | cons c cs ih =>
      rw [splitChars_cons] at h
      split at h
      · rcases List.mem_cons.mp h with rfl | h
        · simp
        · exact ih h
      · rename_i hc
        cases hparts : splitChars isMark cs with
        | nil => simp [hparts] at h
        | cons first parts =>
            rw [hparts] at h ih
            rcases List.mem_cons.mp h with rfl | h
            · exact List.forall_mem_cons.mpr
                ⟨Bool.eq_false_iff.mpr hc, ih List.mem_cons_self⟩
            · exact ih (List.mem_cons_of_mem _ h)

/-- The parts with the mark between them. -/
theorem intercalate_split (mark : Char) (s : String) :
    (String.singleton mark).intercalate (split (· = mark) s) = s := by
  have hparts : splitChars (· = mark) s.toList = s.toList.splitOn mark := by
    rw [splitChars_eq, List.splitOn]
    rfl
  refine String.toList_injective ?_
  rw [String.toList_intercalate, split, List.map_map, hparts]
  simp [Function.comp_def, List.intercalate_splitOn]

theorem notMem_of_mem_split {mark : Char} {s part : String} (h : part ∈ split (· = mark) s) :
    mark ∉ part.toList := by
  obtain ⟨cs, hcs, rfl⟩ := List.mem_map.mp h
  intro hmem
  rw [String.toList_ofList] at hmem
  simpa using not_isMark_of_mem_splitChars hcs mark hmem

theorem ne_of_notMem {mark : Char} {cs : List Char} (h : mark ∉ cs) : ∀ c ∈ cs, c ≠ mark := by
  rintro c hc rfl
  exact h hc

theorem split_of_notMem {mark : Char} {s : String} (h : mark ∉ s.toList) :
    split (· = mark) s = [s] := by
  have hs : ∀ c ∈ s.toList, decide (c = mark) = false := by simpa using ne_of_notMem h
  rw [split, splitChars_eq, List.splitOnP_eq_singleton hs]
  simp

/-- What follows the last mark is the last part. -/
theorem split_append {mark : Char} (a : String) {b : String} (h : mark ∉ b.toList) :
    split (· = mark) (a ++ String.singleton mark ++ b) = split (· = mark) a ++ [b] := by
  have hb : ∀ c ∈ b.toList, decide (c = mark) = false := by simpa using ne_of_notMem h
  have hlist : (a ++ String.singleton mark ++ b).toList = a.toList ++ mark :: b.toList := by simp
  rw [split, hlist, splitChars_eq, List.splitOnP_append_cons _ _ (by simp),
    List.splitOnP_eq_singleton hb, List.map_append, split, splitChars_eq]
  simp

/-- What stands in a joined text stands in one of the parts or between them. -/
theorem mem_intercalate {separator : String} {parts : List String} {c : Char}
    (h : c ∈ (separator.intercalate parts).toList) :
    c ∈ separator.toList ∨ ∃ part ∈ parts, c ∈ part.toList := by
  rw [String.toList_intercalate] at h
  induction parts with
  | nil => simp [List.intercalate] at h
  | cons part parts ih =>
      cases parts with
      | nil => exact .inr ⟨part, List.mem_singleton_self _, by simpa using h⟩
      | cons next parts =>
          rw [List.map_cons, List.map_cons, List.intercalate_cons_cons, List.mem_append,
            List.mem_append] at h
          rcases h with (h | h) | h
          · exact .inr ⟨part, List.mem_cons_self, h⟩
          · exact .inl h
          · rcases ih h with h | ⟨part', hpart', h⟩
            · exact .inl h
            · exact .inr ⟨part', List.mem_cons_of_mem _ hpart', h⟩

/-! ### The first mark and the last one -/

/-- What has no mark at the start of a text ends before each mark. -/
theorem exists_append_of_notMem {mark : Char} {a b p r : List Char} (hp : mark ∉ p)
    (h : a ++ mark :: b = p ++ r) : ∃ c, a = p ++ c ∧ r = c ++ mark :: b := by
  rcases List.append_eq_append_iff.mp h with ⟨c, rfl, hc⟩ | ⟨c, rfl, hc⟩
  · cases c with
    | nil => exact ⟨[], (List.append_nil _).symm ▸ (List.append_nil _).symm, hc.symm⟩
    | cons d c =>
        obtain rfl := (List.cons.inj hc).1
        exact absurd (List.mem_append_right a List.mem_cons_self) hp
  · exact ⟨c, rfl, hc⟩

/-- What has no mark at the end of a text starts after each mark. -/
theorem exists_append_of_notMem_end {mark : Char} {a b q r : List Char} (hq : mark ∉ q)
    (h : a ++ mark :: b = r ++ q) : ∃ d, b = d ++ q ∧ r = a ++ mark :: d := by
  have hreverse : b.reverse ++ mark :: a.reverse = q.reverse ++ r.reverse := by
    simpa using congrArg List.reverse h
  obtain ⟨c, hb, hr⟩ := exists_append_of_notMem (by simpa using hq) hreverse
  refine ⟨c.reverse, ?_, ?_⟩
  · simpa using congrArg List.reverse hb
  · simpa using congrArg List.reverse hr

/-- A text is cut at its first mark in one way only. -/
theorem append_firstMark_inj {mark : Char} {a a' b b' : List Char} (ha : mark ∉ a)
    (ha' : mark ∉ a') (h : a ++ mark :: b = a' ++ mark :: b') : a = a' ∧ b = b' := by
  obtain ⟨c, rfl, hc⟩ := exists_append_of_notMem ha' h
  cases c with
  | nil => exact ⟨List.append_nil _, (List.cons.inj hc).2.symm⟩
  | cons d c =>
      obtain rfl := (List.cons.inj hc).1
      exact absurd (List.mem_append_right a' List.mem_cons_self) ha

/-- A text is cut at its last mark in one way only. -/
theorem append_lastMark_inj {mark : Char} {a a' b b' : List Char} (hb : mark ∉ b)
    (hb' : mark ∉ b') (h : a ++ mark :: b = a' ++ mark :: b') : a = a' ∧ b = b' := by
  have hreverse : b.reverse ++ mark :: a.reverse = b'.reverse ++ mark :: a'.reverse := by
    simpa using congrArg List.reverse h
  obtain ⟨hafter, hbefore⟩ :=
    append_firstMark_inj (by simpa using hb) (by simpa using hb') hreverse
  exact ⟨List.reverse_injective hbefore, List.reverse_injective hafter⟩

theorem exists_lastMark {mark : Char} {cs : List Char} (h : mark ∈ cs) :
    ∃ a b, cs = a ++ mark :: b ∧ mark ∉ b := by
  obtain ⟨b, a, hcs, hb⟩ := List.eq_append_cons_of_mem (List.mem_reverse.mpr h)
  refine ⟨a.reverse, b.reverse, ?_, by simpa using hb⟩
  simpa using congrArg List.reverse hcs

end CodeReview.Text
