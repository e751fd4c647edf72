import CodeReview.Path
import CodeReview.Proofs.Text.Split
import Mathlib

/-!
The language of a file is told by what follows the last dot of its name, and by nothing else in its
path. A name without a dot, or with no other dot than its first character, tells none.
-/

namespace CodeReview.Path

/-- The path is this name, perhaps with directories before it. -/
def LeadsTo (path name : String) : Prop :=
  path = name ∨ ∃ directory, path = directory ++ "/" ++ name

/-! ### Names -/

theorem LeadsTo.exists_split {path name : String} (h : LeadsTo path name)
    (hname : '/' ∉ name.toList) :
    ∃ directories, Text.split (· = '/') path = directories ++ [name] := by
  rcases h with rfl | ⟨directory, rfl⟩
  · exact ⟨[], Text.split_of_notMem hname⟩
  · exact ⟨_, Text.split_append directory hname⟩

/-- The last name of a path is the one that it leads to. -/
theorem LeadsTo.fileName?_eq {path name : String} (h : LeadsTo path name)
    (hslash : '/' ∉ name.toList) (hempty : name ≠ "") (hhere : name ≠ ".") :
    fileName? path = if name = ".." then none else some name := by
  obtain ⟨directories, hsplit⟩ := h.exists_split hslash
  have hnames : namesFromLast path =
      name :: directories.reverse.filter fun n => n ≠ "" ∧ n ≠ "." := by
    rw [namesFromLast, hsplit, List.reverse_append, List.reverse_singleton, List.singleton_append,
      List.filter_cons_of_pos (by simp [hempty, hhere])]
  rw [fileName?, hnames]

/-! ### Extensions -/

theorem splitDot?_append (stem : String) {ext : String} (h : '.' ∉ ext.toList) :
    splitDot? (stem ++ "." ++ ext) = some (stem, ext) := by
  have hlast : (stem ++ "." ++ ext).toList.reverse =
      ext.toList.reverse ++ '.' :: stem.toList.reverse := by simp
  have hext : ∀ c ∈ ext.toList.reverse, decide (c ≠ '.') = true := by
    simpa using Text.ne_of_notMem h
  simp only [splitDot?]
  rw [hlast, List.dropWhile_append_of_pos hext, List.takeWhile_append_of_pos hext]
  simp

theorem splitDot?_of_notMem {name : String} (h : '.' ∉ name.toList) : splitDot? name = none := by
  have hname : ∀ c ∈ name.toList.reverse, decide (c ≠ '.') = true := by
    simpa using Text.ne_of_notMem h
  simp only [splitDot?]
  rw [List.dropWhile_eq_nil_iff.mpr hname]

/-- No dot, or no other one than the first character. -/
def Bare (name : String) : Prop :=
  '.' ∉ name.toList ∨ ∃ rest : String, name = "." ++ rest ∧ '.' ∉ rest.toList

theorem extension?_of_bare {path name : String} (hpath : LeadsTo path name)
    (hslash : '/' ∉ name.toList) (hempty : name ≠ "") (hhere : name ≠ ".") (hname : Bare name) :
    extension? path = none := by
  rw [extension?, hpath.fileName?_eq hslash hempty hhere]
  split
  · rfl
  · rcases hname with hname | ⟨rest, rfl, hrest⟩
    · simp [splitDot?_of_notMem hname]
    · have hsplit := splitDot?_append "" hrest
      rw [String.empty_append] at hsplit
      simp [hsplit]

/-- What follows the last dot of a name. Two dots alone are no name, and nothing follows them. -/
theorem extension?_of_append {path stem ext : String} (hpath : LeadsTo path (stem ++ "." ++ ext))
    (hstem : stem ≠ "") (hslash : '/' ∉ stem.toList) (hslash' : '/' ∉ ext.toList)
    (hdot : '.' ∉ ext.toList) : extension? path = some ext ∨ extension? path = none ∧ ext = "" := by
  have hname : '/' ∉ (stem ++ "." ++ ext).toList := by
    simp [hslash, hslash']
  have hsplit := splitDot?_append stem hdot
  have hempty : stem ++ "." ++ ext ≠ "" := by
    intro h
    have hnothing : splitDot? "" = none := by decide +kernel
    rw [h, hnothing] at hsplit
    cases hsplit
  have hhere : stem ++ "." ++ ext ≠ "." := by
    intro h
    have hdot : splitDot? "." = some ("", "") := by decide +kernel
    rw [h, hdot] at hsplit
    cases hsplit
    exact hstem rfl
  rw [extension?, hpath.fileName?_eq hname hempty hhere]
  split
  · rename_i hup
    right
    have hdots : splitDot? ".." = some (".", "") := by decide +kernel
    rw [hup, hdots] at hsplit
    cases hsplit
    exact ⟨rfl, rfl⟩
  · left
    simp [hsplit, hstem]

/-! ### Languages -/

/-- Each extension is in the table once. -/
theorem lookup_languages_iff {ext language : String} :
    languages.lookup ext = some language ↔ (ext, language) ∈ languages := by
  constructor
  · intro h
    obtain ⟨before, after, hlanguages, -⟩ := List.lookup_eq_some_iff.mp h
    rw [hlanguages]
    exact List.mem_append_right _ List.mem_cons_self
  · have hall : ∀ e ∈ languages, languages.lookup e.1 = some e.2 := by decide +kernel
    exact hall (ext, language)

/-- The language goes by the extension, with its capital letters made small, and a bare name has
none, wherever the path comes from. -/
theorem language?_of_leadsTo :
    (∀ path stem ext : String, LeadsTo path (stem ++ "." ++ ext) → stem ≠ "" →
      '/' ∉ stem.toList → '/' ∉ ext.toList → '.' ∉ ext.toList → ∀ language,
      language? path = some language ↔ (Text.lowerAscii ext, language) ∈ languages) ∧
    ∀ path name : String, LeadsTo path name → '/' ∉ name.toList → name ≠ "" → name ≠ "." →
      Bare name → language? path = none := by
  constructor
  · intro path stem ext hpath hstem hslash hslash' hdot language
    rw [← lookup_languages_iff, language?]
    rcases extension?_of_append hpath hstem hslash hslash' hdot with hext | ⟨hext, rfl⟩
    · rw [hext, Option.bind_some]
    · have hnone : languages.lookup (Text.lowerAscii "") = none := by decide +kernel
      rw [hext, Option.bind_none, hnone]
  · intro path name hpath hslash hempty hhere hname
    rw [language?, extension?_of_bare hpath hslash hempty hhere hname, Option.bind_none]

theorem language?_of_leadsTo_hidden :
    LeadsTo "../v1.2/src.rs/.Main.test.TSX" (".Main.test" ++ "." ++ "TSX") ∧
      language? "../v1.2/src.rs/.Main.test.TSX" = some "typescript" ∧
      LeadsTo "src.rs/.go" ".go" ∧ Bare ".go" ∧ language? "src.rs/.go" = none := by
  have hpath : LeadsTo "../v1.2/src.rs/.Main.test.TSX" (".Main.test" ++ "." ++ "TSX") :=
    .inr ⟨"../v1.2/src.rs", by decide +kernel⟩
  have hbare : LeadsTo "src.rs/.go" ".go" := .inr ⟨"src.rs", by decide +kernel⟩
  have hname : Bare ".go" := .inr ⟨"go", by decide +kernel, by decide⟩
  obtain ⟨hknown, hnone⟩ := language?_of_leadsTo
  refine ⟨hpath, ?_, hbare, hname, ?_⟩
  · exact (hknown _ _ _ hpath (by decide) (by decide) (by decide) (by decide) _).mpr
      (by decide +kernel)
  · exact hnone _ _ hbare (by decide) (by decide) (by decide) hname

end CodeReview.Path
