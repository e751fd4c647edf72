import CodeReview.Proofs.Text.Split
import CodeReview.Proofs.Text.Trim
import CodeReview.Prompt

/-!
A prompt can be taken apart in one way only. The code stands in it as it is, and may look like any
part of a prompt; but the language ends with the first line of the prompt, and what to look at
stands on a line of its own, so many lines before the end.
-/

namespace CodeReview.Prompt

/-! ### What to look at -/

/-- The names that are shown: each without the blanks around it, and none that is blank. -/
def shownNames (focus : List String) : List String :=
  (focus.map Text.trim).filter (· ≠ "")

theorem filterMap_nonBlank? (focus : List String) :
    focus.filterMap Text.nonBlank? = shownNames focus := by
  rw [shownNames, ← List.filterMap_eq_filter, List.filterMap_map]
  exact congrArg (List.filterMap · focus) (funext Text.nonBlank?_eq_guard)

theorem trimmed_of_mem_shownNames {focus : List String} {name : String}
    (h : name ∈ shownNames focus) : Text.Trimmed name := by
  rw [← filterMap_nonBlank?, List.mem_filterMap] at h
  obtain ⟨s, -, hs⟩ := h
  exact Text.trimmed_of_nonBlank? hs

theorem shownNames_eq_nil_iff {focus : List String} :
    shownNames focus = [] ↔ ∀ s ∈ focus, Text.allBlank s = true := by
  rw [← filterMap_nonBlank?, List.filterMap_eq_nil_iff]
  simp only [Text.nonBlank?_eq_none_iff]

theorem focusText_of_blank {focus : List String} (h : ∀ s ∈ focus, Text.allBlank s = true) :
    focusText focus = defaultFocus := by
  rw [focusText, filterMap_nonBlank?, shownNames_eq_nil_iff.mpr h]

theorem focusText_of_shown {focus : List String} (h : ¬ ∀ s ∈ focus, Text.allBlank s = true) :
    focusText focus = ", ".intercalate (shownNames focus) := by
  rw [focusText, filterMap_nonBlank?]
  split
  · rename_i hnil
    exact absurd (shownNames_eq_nil_iff.mp hnil) h
  · rfl

/-- Something to look at is always said. -/
theorem focusText_shows (focus : List String) : Text.allBlank (focusText focus) = false := by
  by_cases h : ∀ s ∈ focus, Text.allBlank s = true
  · rw [focusText_of_blank h]
    decide
  · rw [focusText_of_shown h]
    cases hnames : shownNames focus with
    | nil => exact absurd (shownNames_eq_nil_iff.mp hnames) h
    | cons name names =>
        have hname : Text.allBlank name = false :=
          (trimmed_of_mem_shownNames (hnames ▸ List.mem_cons_self)).allBlank_eq
        rw [Text.allBlank] at hname ⊢
        rw [String.toList_intercalate, List.map_cons]
        cases names with
        | nil => simpa using hname
        | cons next names =>
            rw [List.map_cons, List.intercalate_cons_cons, List.all_append, List.all_append, hname]
            rfl

theorem notMem_focusText {focus : List String} (h : ∀ s ∈ focus, '\n' ∉ s.toList) :
    '\n' ∉ (focusText focus).toList := by
  by_cases hblank : ∀ s ∈ focus, Text.allBlank s = true
  · rw [focusText_of_blank hblank]
    decide
  · rw [focusText_of_shown hblank]
    intro hmem
    rcases Text.mem_intercalate hmem with hmem | ⟨name, hname, hmem⟩
    · exact absurd hmem (by decide)
    · obtain ⟨s, hs, rfl⟩ := List.mem_map.mp (List.mem_of_mem_filter hname)
      exact h s hs (Text.mem_of_mem_trim hmem)

/-! ### The lines of a prompt -/

/-- The first line up to the language. -/
def opening : String := "You are an expert code reviewer. Analyze the following "

/-- The first line after the language. -/
def closing : String := " code and provide detailed feedback."

/-- The line that names the language. -/
def firstLine (language : String) : String :=
  opening ++ language ++ closing

/-- What stands between the first line and the code. -/
def intro : String := "\nCode to analyze:\n"

/-- What stands between the code and the line that says what to look at. -/
def frame : String :=
  "\n\n" ++ "Please provide your analysis in the following JSON format:\n" ++ contract

def focusLabel : String := "Focus on: "

/-- The line that says what to look at. -/
def focusLine (focus : List String) : String :=
  focusLabel ++ focusText focus

/-- The end of that line, and the last line. -/
def ending : String := "\n" ++ "Provide practical, actionable feedback.\n"

theorem header_eq (language : String) :
    header language = firstLine language ++ ("\n" ++ intro) := by
  have hbreak : " code and provide detailed feedback.\n\n" ++ "Code to analyze:\n" =
      closing ++ ("\n" ++ intro) := by
    decide +kernel
  change opening ++ language ++ " code and provide detailed feedback.\n\n" ++
    "Code to analyze:\n" = _
  rw [String.append_assoc, hbreak, ← String.append_assoc, firstLine]

theorem trailer_eq (focus : List String) :
    trailer focus = frame ++ ("\n" ++ focusLine focus) ++ ending := by
  change frame ++ "\n" ++ focusLabel ++ focusText focus ++ "\n" ++
    "Provide practical, actionable feedback.\n" = _
  rw [ending, focusLine]
  simp only [← String.append_assoc]

theorem notMem_firstLine {language : String} (h : '\n' ∉ language.toList) :
    '\n' ∉ (firstLine language).toList := by
  have hopening : '\n' ∉ opening.toList := by decide +kernel
  have hclosing : '\n' ∉ closing.toList := by decide +kernel
  simp [firstLine, h, hopening, hclosing]

theorem notMem_focusLine {focus : List String} (h : ∀ s ∈ focus, '\n' ∉ s.toList) :
    '\n' ∉ (focusLine focus).toList := by
  have hlabel : '\n' ∉ focusLabel.toList := by decide +kernel
  simp [focusLine, notMem_focusText h, hlabel]

/-- Two prompts are the same only if they name the same language, show the same code and say the
same about what to look at, whatever the code looks like. -/
theorem build_inj {language language' code code' : String} {focus focus' : List String}
    (hlanguage : '\n' ∉ language.toList) (hlanguage' : '\n' ∉ language'.toList)
    (hfocus : ∀ s ∈ focus, '\n' ∉ s.toList) (hfocus' : ∀ s ∈ focus', '\n' ∉ s.toList)
    (h : build language code focus = build language' code' focus') :
    language = language' ∧ code = code' ∧ focusText focus = focusText focus' := by
  have hbreak (a b : String) : (a ++ ("\n" ++ b)).toList = a.toList ++ '\n' :: b.toList := by
    rw [String.toList_append, String.toList_append]
    rfl
  have hlines (language code : String) (focus : List String) : build language code focus =
      firstLine language ++ ("\n" ++ (intro ++ (code ++ frame ++ ("\n" ++ focusLine focus)) ++
        ending)) := by
    rw [build, header_eq, trailer_eq]
    simp only [String.append_assoc]
  rw [hlines, hlines] at h
  -- The language is told from the front, and what to look at from the end; the code is the rest.
  have hfront := congrArg String.toList h
  rw [hbreak, hbreak] at hfront
  obtain ⟨hfirst, hrest⟩ := Text.append_firstMark_inj (notMem_firstLine hlanguage)
    (notMem_firstLine hlanguage') hfront
  have hmiddle := (String.append_right_inj _).mp
    ((String.append_left_inj _).mp (String.toList_injective hrest))
  have hback := congrArg String.toList hmiddle
  rw [hbreak, hbreak] at hback
  obtain ⟨hcode, hline⟩ := Text.append_lastMark_inj (notMem_focusLine hfocus)
    (notMem_focusLine hfocus') hback
  refine ⟨?_, ?_, ?_⟩
  · exact (String.append_right_inj _).mp
      ((String.append_left_inj _).mp (String.toList_injective hfirst))
  · exact (String.append_left_inj _).mp (String.toList_injective hcode)
  · exact (String.append_right_inj _).mp (String.toList_injective hline)

/-- A prompt tells the language, the code and what to look at, if the language and what to look at
stay on their lines; the code may be any text. What to look at are the names that are not blank, in
their order and without the blanks around them, or the usual words exactly when all names are blank.
So something is always said. -/
theorem build_tells (focus : List String) :
    (∀ (focus' : List String) (language language' code code' : String),
      '\n' ∉ language.toList → '\n' ∉ language'.toList → (∀ s ∈ focus, '\n' ∉ s.toList) →
      (∀ s ∈ focus', '\n' ∉ s.toList) →
      (build language code focus = build language' code' focus' ↔
        language = language' ∧ code = code' ∧ focusText focus = focusText focus')) ∧
    ((∀ s ∈ focus, ∀ c ∈ s.toList, Text.isBlank c = true) →
      focusText focus = "general code quality") ∧
    ((∃ s ∈ focus, ∃ c ∈ s.toList, Text.isBlank c = false) →
      focusText focus = ", ".intercalate ((focus.map Text.trim).filter (· ≠ ""))) ∧
    ∃ c ∈ (focusText focus).toList, Text.isBlank c = false := by
  refine ⟨fun focus' language language' code code' hlanguage hlanguage' hfocus hfocus' =>
    ⟨build_inj hlanguage hlanguage' hfocus hfocus', ?_⟩, fun h => ?_, ?_, ?_⟩
  · rintro ⟨rfl, rfl, hsame⟩
    rw [build, build, trailer_eq, trailer_eq, focusLine, focusLine, hsame]
  · exact focusText_of_blank fun s hs => Text.allBlank_iff.mpr (h s hs)
  · rintro ⟨s, hs, c, hc, hshows⟩
    refine focusText_of_shown fun h => ?_
    rw [Text.allBlank_iff.mp (h s hs) c hc] at hshows
    cases hshows
  · simpa [Text.allBlank] using focusText_shows focus

/-- The code of the second prompt ends like the whole first one, up to what to look at. -/
theorem build_tells_forged :
    let forged := "x" ++ trailer ["security"]
    '\n' ∉ "go".toList ∧ (∀ s ∈ ["security", " \t"], '\n' ∉ s.toList) ∧
      build "go" "x" ["security", " \t"] ≠ build "go" forged [] ∧
      focusText ["security", " \t"] = "security" ∧ focusText [" \t"] = "general code quality" := by
  intro forged
  have hlanguage : '\n' ∉ "go".toList := by decide
  have hfocus : ∀ s ∈ ["security", " \t"], '\n' ∉ s.toList := by simp
  have hnone : ∀ s ∈ ([] : List String), '\n' ∉ s.toList := by simp
  obtain ⟨htells, -, hshown, -⟩ := build_tells ["security", " \t"]
  obtain ⟨-, husual, -⟩ := build_tells [" \t"]
  have hblank : ∀ s ∈ [" \t"], ∀ c ∈ s.toList, Text.isBlank c = true :=
    List.forall_mem_singleton.mpr (Text.allBlank_iff.mp (by decide))
  refine ⟨hlanguage, hfocus, fun h => ?_, ?_, husual hblank⟩
  · have hcode := ((htells [] _ _ _ _ hlanguage hlanguage hfocus hnone).mp h).2.1
    exact absurd (congrArg String.length hcode) (by simp [forged, trailer])
  · rw [hshown ⟨"security", by simp, 's', by decide, by decide⟩]
    decide +kernel

end CodeReview.Prompt
