import CodeReview.Command.ReportText
import CodeReview.Vocabulary
import Mathlib.Data.List.Infix

/-!
What the texts for people tell: of a report each issue and each suggestion in its place, and the
metrics at the end. Colours stand around what is told and not in it, but for the name of a model in
which the end of a colour is hidden.
-/

namespace CodeReview

namespace Text

variable {old : List Char}

/-- Where the text that is looked for does not occur nothing is replaced. -/
theorem replaceChars_of_absent (new : List Char) {cs : List Char} (h : ¬ old <:+: cs) :
    replaceChars old new 0 cs = cs := by
  induction cs with
  | nil => rfl
  | cons c rest ih =>
      have hprefix : ¬ old.isPrefixOf (c :: rest) = true := by
        rw [List.isPrefixOf_iff_prefix]
        exact fun hp => h hp.isInfix
      rw [replaceChars, if_neg hprefix, ih fun hi => h (hi.trans (List.suffix_cons c rest).isInfix)]

theorem replace_of_absent {old s : String} (new : String) (h : ¬ old.toList <:+: s.toList) :
    replace old new s = s := by
  rw [replace, replaceChars_of_absent _ h, String.ofList_toList]

end Text

namespace ReportText

/-! ### Pieces of a text -/

/-- The text is made of segments, and these pieces are some of them, in this order. -/
def Tells (text : String) (pieces : List String) : Prop :=
  ∃ segments : List String, String.join segments = text ∧ pieces.Sublist segments

variable {text text' : String} {pieces pieces' : List String}

theorem Tells.append (h : Tells text pieces) (h' : Tells text' pieces') :
    Tells (text ++ text') (pieces ++ pieces') := by
  obtain ⟨segments, rfl, hsub⟩ := h
  obtain ⟨segments', rfl, hsub'⟩ := h'
  exact ⟨segments ++ segments', String.join_append, hsub.append hsub'⟩

theorem tells_self (text : String) : Tells text [text] :=
  ⟨[text], by simp [String.join], List.Sublist.refl _⟩

theorem tells_nothing (text : String) : Tells text [] :=
  ⟨[text], by simp [String.join], List.nil_sublist _⟩

theorem tells_join {α : Type} {f : α → String} {parts : α → List String}
    (h : ∀ a, Tells (f a) (parts a)) (xs : List α) :
    Tells (String.join (xs.map f)) (xs.flatMap parts) := by
  induction xs with
  | nil => exact tells_nothing _
  | cons x xs ih =>
      rw [List.map_cons, String.join_cons, List.flatMap_cons]
      exact (h x).append ih

/-! ### Texts in a style -/

section Styled

variable (colours : Bool) (style : Style)

theorem tells_styled {text : String} (h : ¬ reset.toList <:+: text.toList) :
    Tells (styled colours style text) [text] := by
  rw [styled]
  split
  · dsimp only
    rw [Text.replace_of_absent _ h]
    exact ((tells_nothing _).append (tells_self text)).append (tells_nothing reset)
  · exact tells_self text

/-- Every end of a style has an escape character in it. -/
theorem not_infix_reset {text : String} (h : '\x1b' ∉ text.toList) :
    ¬ reset.toList <:+: text.toList := by
  intro hpart
  have hmem : '\x1b' ∈ reset.toList := by decide
  exact h (hpart.subset hmem)

/-- The text, if no end of a style is hidden in it. -/
def whole (text : String) : List String :=
  if reset.toList <:+: text.toList then [] else [text]

theorem tells_whole (text : String) : Tells (styled colours style text) (whole text) := by
  rw [whole]
  split
  · exact tells_nothing _
  · rename_i h
    exact tells_styled colours style h

end Styled

/-! ### Reports -/

/-- The lines on metrics. -/
def metricsLines (m : Metrics) : List String :=
  ["  Lines of code:          " ++ toString m.linesOfCode ++ "\n",
   "  Cyclomatic complexity:  " ++ toString m.cyclomaticComplexity ++ "\n",
   "  Maintainability index:  " ++ toString m.maintainabilityIndex ++ "\n",
   "  Technical debt:         " ++ Decimal.fixed 1 m.technicalDebt ++ " h\n"]

/-- What is told about an issue: how severe it is, where it is, its message, its kind, and a fix. -/
def issueParts (i : Issue) : List String :=
  [Vocabulary.name i.severity,
   toString i.location.startLine ++ ":" ++ toString i.location.startColumn ++ " " ++ i.message ++
     " (" ++ Vocabulary.name i.kind ++ ")\n"] ++
    (i.suggestedFix.map fun fix => "      fix: " ++ fix ++ "\n").toList

/-- What is told about a suggestion. -/
def suggestionParts (s : Suggestion) : List String :=
  [s.title ++ " [" ++ Vocabulary.name s.kind ++ ", impact " ++ Vocabulary.name s.impact ++
     ", confidence " ++ Decimal.fixed 0 (s.confidence * 100.0) ++ "%]\n",
   "      " ++ s.description ++ "\n"]

/-- What is told about a file with a report on it. -/
def reportParts (file : String) (r : Report) : List String :=
  [" " ++ file ++ "\n"] ++ whole r.modelUsed ++
    ["  (" ++ toString r.processingTime ++ " ms)\n\n"] ++
    (if r.issues.isEmpty then ["No issues reported"] else r.issues.flatMap issueParts) ++
    r.suggestions.flatMap suggestionParts ++ metricsLines r.metrics

variable (colours : Bool)

theorem tells_metricsText (m : Metrics) : Tells (metricsText colours m) (metricsLines m) := by
  refine ⟨[styled colours .bold "METRICS", "\n"] ++ metricsLines m, ?_,
    List.sublist_append_right _ _⟩
  simp only [metricsText, metricsLines, String.join, List.cons_append, List.nil_append,
    List.foldl_cons, List.foldl_nil, String.empty_append, String.append_assoc]

theorem tells_severity (s : Severity) :
    Tells (styled colours (Severity.style s) (Vocabulary.name s)) [Vocabulary.name s] :=
  tells_styled colours _ (not_infix_reset (by cases s <;> decide))

theorem tells_issueText (i : Issue) : Tells (issueText colours i) (issueParts i) := by
  have hline := (((tells_nothing "  [").append (tells_severity colours i.severity)).append
    (tells_nothing "] ")).append (tells_self (toString i.location.startLine ++ ":" ++
      toString i.location.startColumn ++ " " ++ i.message ++ " (" ++ Vocabulary.name i.kind ++
        ")\n"))
  unfold issueText issueParts
  cases i.suggestedFix with
  | none =>
      simpa only [Option.map_none, Option.toList_none, String.append_assoc, List.nil_append,
        List.cons_append, List.append_nil] using hline.append (tells_nothing "")
  | some fix =>
      simpa only [Option.map_some, Option.toList_some, String.append_assoc, List.nil_append,
        List.cons_append] using hline.append (tells_self ("      fix: " ++ fix ++ "\n"))

theorem tells_suggestionText (s : Suggestion) : Tells (suggestionText s) (suggestionParts s) := by
  refine ⟨"  " :: suggestionParts s, ?_, List.sublist_cons_self _ _⟩
  unfold suggestionText suggestionParts
  simp only [String.join, List.foldl_cons, List.foldl_nil, String.empty_append,
    String.append_assoc]

/-- A report that is printed tells all of this, in colours or without. -/
theorem tells_render (file : String) (r : Report) :
    Tells (render colours file r) (reportParts file r) := by
  have hhead := (((((tells_nothing (styled colours .bold "CODELENS")).append
    (tells_self (" " ++ file ++ "\n"))).append (tells_nothing "Model: ")).append
      (tells_whole colours (if r.isFallback then .yellow else .green) r.modelUsed)).append
        (tells_self ("  (" ++ toString r.processingTime ++ " ms)\n\n")))
  have hissues : Tells
      (if r.issues.isEmpty then styled colours .green "No issues reported" ++ "\n"
       else styled colours .bold "ISSUES" ++ "\n" ++
        String.join (r.issues.map (issueText colours)))
      (if r.issues.isEmpty then ["No issues reported"] else r.issues.flatMap issueParts) := by
    split
    · exact (tells_styled colours .green (not_infix_reset (by decide))).append (tells_nothing "\n")
    · exact ((tells_nothing _).append (tells_nothing "\n")).append
        (tells_join (tells_issueText colours) r.issues)
  have hsuggestions : Tells
      (if r.suggestions.isEmpty then ""
       else "\n" ++ styled colours .bold "SUGGESTIONS" ++ "\n" ++
        String.join (r.suggestions.map suggestionText))
      (r.suggestions.flatMap suggestionParts) := by
    cases r.suggestions with
    | nil => exact tells_nothing ""
    | cons s ss =>
        exact (((tells_nothing "\n").append (tells_nothing _)).append (tells_nothing "\n")).append
          (tells_join tells_suggestionText (s :: ss))
  have hparts := (((hhead.append hissues).append hsuggestions).append (tells_nothing "\n")).append
    (tells_metricsText colours r.metrics)
  simpa only [render, reportParts, String.append_assoc, List.nil_append, List.cons_append,
    List.append_nil, List.append_assoc] using hparts

end ReportText

end CodeReview
