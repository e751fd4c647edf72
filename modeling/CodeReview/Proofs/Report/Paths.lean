import CodeReview.Proofs.Text.Runs
import CodeReview.Report.Measure
import Mathlib

/-!
The paths through a text of code, counted by its runs. The search for branch words goes through the
text from left to right and looks at the characters around each word; the search for operators goes
on behind each one that it finds. Both find what there is to find in the runs of the text, and
nothing twice.
-/

namespace CodeReview.Metrics

open Text (runs)

/-! ### Branch words -/

/-- The characters of words: the ASCII digits and letters, and the underscore. -/
def inWords (c : Char) : Bool :=
  '0' ≤ c && c ≤ '9' || 'A' ≤ c && c ≤ 'Z' || 'a' ≤ c && c ≤ 'z' || c = '_'

theorem isWordChar_eq : isWordChar = inWords := by
  funext c
  have halphanum : c.isAlphanum =
      ('0' ≤ c && c ≤ '9' || 'A' ≤ c && c ≤ 'Z' || 'a' ≤ c && c ≤ 'z' : Bool) := by
    rw [Char.isAlphanum, Char.isAlpha, Bool.or_comm, ← Bool.or_assoc, Char.isUpper,
      Bool.decide_and]
    rfl
  rw [isWordChar, halphanum, inWords]

theorem isWordChar_of_mem {w : List Char} (hw : w ∈ branchWords) :
    ∀ c ∈ w, isWordChar c = true := by
  have hall : branchWords.all (fun w => w.all isWordChar) = true := by decide +kernel
  exact List.all_eq_true.mp (List.all_eq_true.mp hall w hw)

theorem ne_nil_of_mem {w : List Char} (hw : w ∈ branchWords) : w ≠ [] := by
  rintro rfl
  revert hw
  decide

theorem wordEnds_iff {cs : List Char} :
    wordEnds cs = true ↔ ∀ c, cs.head? = some c → isWordChar c = false := by
  rw [wordEnds, Bool.not_eq_true']
  exact Option.any_eq_false ..

theorem wordEnds_dropWhile (cs : List Char) : wordEnds (cs.dropWhile isWordChar) = true := by
  rw [wordEnds_iff]
  intro c hc
  have hfirst := List.head?_dropWhile_not isWordChar cs
  rwa [hc] at hfirst

/-- The text starts with the word, and the word ends there. -/
theorem startsWith_iff {w cs : List Char} (hw : ∀ c ∈ w, isWordChar c = true) :
    (w.isPrefixOf cs && wordEnds (cs.drop w.length)) = true ↔ cs.takeWhile isWordChar = w := by
  rw [Bool.and_eq_true, List.isPrefixOf_iff_prefix]
  constructor
  · rintro ⟨⟨rest, rfl⟩, hends⟩
    rw [List.drop_left] at hends
    rw [List.takeWhile_append_of_pos hw]
    cases rest with
    | nil => simp
    | cons c rest => simp [wordEnds_iff.mp hends c rfl]
  · intro h
    have hsplit := List.takeWhile_append_dropWhile (p := isWordChar) (l := cs)
    have hends := wordEnds_dropWhile cs
    rw [h] at hsplit
    generalize cs.dropWhile isWordChar = rest at hsplit hends
    subst hsplit
    rw [List.drop_left]
    exact ⟨List.prefix_append w rest, hends⟩

/-- A branch word stands at the start of a text when the word that the text starts with is one. -/
theorem branchWordAt?_eq_some_iff {w cs : List Char} :
    branchWordAt? cs = some w ↔ cs.takeWhile isWordChar = w ∧ w ∈ branchWords := by
  have found {w : List Char} (h : branchWordAt? cs = some w) :
      cs.takeWhile isWordChar = w ∧ w ∈ branchWords := by
    have hw : w ∈ branchWords := List.mem_of_find?_eq_some h
    have hstarts : (w.isPrefixOf cs && wordEnds (cs.drop w.length)) = true := by
      rw [branchWordAt?] at h
      exact List.find?_some
        (p := fun w : List Char => w.isPrefixOf cs && wordEnds (cs.drop w.length)) h
    exact ⟨(startsWith_iff (isWordChar_of_mem hw)).mp hstarts, hw⟩
  constructor
  · exact found
  · rintro ⟨hcs, hw⟩
    have hsome : (branchWordAt? cs).isSome = true :=
      List.find?_isSome.mpr ⟨w, hw, (startsWith_iff (isWordChar_of_mem hw)).mpr hcs⟩
    obtain ⟨w', hw'⟩ := Option.isSome_iff_exists.mp hsome
    rw [hw', ← hcs, (found hw').1]

/-- The branch words among the words of a text. -/
def branchRuns (cs : List Char) : Nat :=
  (runs isWordChar cs).countP (· ∈ branchWords)

theorem branchRuns_cons {c : Char} (hc : isWordChar c = false) (cs : List Char) :
    branchRuns (c :: cs) = branchRuns cs := by
  simp [branchRuns, hc]

/-- The first word of a text that starts with one, and the words after it. -/
theorem branchRuns_word {c : Char} (hc : isWordChar c = true) (cs : List Char) :
    branchRuns (c :: cs) =
      (if (c :: cs).takeWhile isWordChar ∈ branchWords then 1 else 0) +
        branchRuns ((c :: cs).dropWhile isWordChar) := by
  have hword : (c :: cs).takeWhile isWordChar ≠ [] := by simp [hc]
  have hruns := Text.runs_append hword (fun d hd => List.mem_takeWhile_imp hd)
    (wordEnds_iff.mp (wordEnds_dropWhile (c :: cs)))
  rw [List.takeWhile_append_dropWhile] at hruns
  rw [branchRuns, hruns, List.countP_cons, Nat.add_comm, branchRuns]
  simp only [decide_eq_true_eq]

/-- What is left when the search goes on behind the word at the start of a text. -/
theorem drop_word {c : Char} (hc : isWordChar c = true) (cs : List Char) :
    cs.drop (((c :: cs).takeWhile isWordChar).length - 1) = cs.dropWhile isWordChar := by
  have hsplit := List.takeWhile_append_dropWhile (p := isWordChar) (l := cs)
  rw [List.takeWhile_cons_of_pos hc, List.length_cons, Nat.add_sub_cancel]
  generalize cs.takeWhile isWordChar = w at hsplit ⊢
  generalize cs.dropWhile isWordChar = rest at hsplit ⊢
  rw [← hsplit, List.drop_left]

/-- The search finds the branch words among the words of a text. Within a word it finds those
after that word. -/
theorem countBranchWords_eq (inWord : Bool) (n : Nat) (cs : List Char) :
    countBranchWords inWord n cs =
      n + branchRuns (if inWord then cs.dropWhile isWordChar else cs) := by
  fun_induction countBranchWords inWord n cs with
  | case1 inWord n => cases inWord <;> rfl
  | case2 inWord n c rest w hw ih =>
      cases inWord with
      | true => cases hw
      | false =>
          obtain ⟨hword, hmem⟩ := branchWordAt?_eq_some_iff.mp hw
          have hc : isWordChar c = true := by
            by_contra hc
            rw [List.takeWhile_cons_of_neg hc] at hword
            exact ne_nil_of_mem hmem hword.symm
          rw [ih, ← hword, drop_word hc, List.dropWhile_idempotent]
          simp only [Bool.false_eq_true, if_true, if_false]
          rw [branchRuns_word hc, if_pos (hword ▸ hmem), List.dropWhile_cons_of_pos hc,
            Nat.add_assoc]
  | case3 inWord n c rest hnone ih =>
      rw [ih]
      cases hc : isWordChar c with
      | false => cases inWord <;> simp [hc, branchRuns_cons hc]
      | true =>
          cases inWord with
          | true => simp [hc]
          | false =>
              have hother : (c :: rest).takeWhile isWordChar ∉ branchWords := fun hmem =>
                Option.some_ne_none _ ((branchWordAt?_eq_some_iff.mpr ⟨rfl, hmem⟩).symm.trans hnone)
              rw [if_neg Bool.false_ne_true, branchRuns_word hc, if_neg hother,
                List.dropWhile_cons_of_pos hc, Nat.zero_add, if_pos rfl]

/-! ### Operators -/

/-- The pairs in the runs of a character. -/
def pairRuns (op : Char) (cs : List Char) : Nat :=
  ((runs (· = op) cs).map fun run => run.length / 2).sum

/-- What stands between the runs has no pair in it, and neither have the empty parts. -/
theorem pairRuns_eq (op : Char) (cs : List Char) :
    pairRuns op cs =
      ((Text.splitChars (fun c => !decide (c = op)) cs).map fun part => part.length / 2).sum := by
  rw [pairRuns, runs]
  generalize Text.splitChars (fun c => !decide (c = op)) cs = parts
  induction parts with
  | nil => rfl
  | cons part parts ih => cases part <;> simpa using ih

theorem countPairs_eq (op : Char) (n : Nat) (cs : List Char) :
    countPairs op n cs = n + pairRuns op cs := by
  simp only [pairRuns_eq]
  fun_induction countPairs op n cs with
  | case1 n a b rest h ih =>
      obtain ⟨rfl, rfl⟩ := h
      obtain ⟨part, parts, hparts⟩ : ∃ part parts,
          Text.splitChars (fun c => !decide (c = b)) rest = part :: parts := ⟨_, _, rfl⟩
      have hhalf : (part.length + 1 + 1) / 2 = part.length / 2 + 1 := by omega
      rw [ih]
      simp only [Text.splitChars_cons, decide_true, Bool.not_true, Bool.false_eq_true, if_false,
        hparts, List.modifyHead_cons, List.map_cons, List.sum_cons, List.length_cons, hhalf]
      omega
  | case2 n a b rest h ih =>
      rw [ih]
      by_cases ha : a = op
      · have hb : ¬ b = op := fun hb => h ⟨ha, hb⟩
        simp [Text.splitChars_cons, ha, hb]
      · simp [Text.splitChars_cons, ha]
  | case3 cs n hshort =>
      cases cs with
      | nil => simp [Text.splitChars]
      | cons a rest =>
          cases rest with
          | nil => by_cases ha : a = op <;> simp [Text.splitChars, ha]
          | cons b rest => exact absurd rfl (hshort a b rest)

/-! ### All paths -/

/-- The words and the operators at which a path divides. -/
def turns (cs : List Char) : Nat :=
  branchRuns cs + (pairRuns '&' cs + pairRuns '|' cs)

theorem countPaths_eq (code : String) : countPaths code = 1 + turns code.toList := by
  rw [countPaths, countBranchWords_eq, countPairs_eq, countPairs_eq, turns]
  simp only [Bool.false_eq_true, if_false]
  omega

/-- No turn reaches across a character that belongs to no word and to no operator. -/
theorem turns_append_cons {c : Char} (hword : isWordChar c = false) (hand : c ≠ '&')
    (hor : c ≠ '|') (a b : List Char) : turns (a ++ c :: b) = turns a + turns b := by
  have hpairs {op : Char} (hop : c ≠ op) :
      pairRuns op (a ++ c :: b) = pairRuns op a + pairRuns op b := by
    simp only [pairRuns]
    rw [Text.runs_append_cons (by simpa using hop), List.map_append, List.sum_append]
  rw [turns, hpairs hand, hpairs hor, branchRuns, Text.runs_append_cons hword,
    List.countP_append, turns, turns, branchRuns, branchRuns]
  omega

/-- There is one path, one more for each word of the text that opens a branch, and one more for each
two characters of a run of `&` or of `|`. -/
theorem countPaths_eq_runs (code : String) :
    countPaths code =
      1 + (runs inWords code.toList).countP (fun word => String.ofList word ∈
            ["if", "else", "while", "for", "switch", "case", "catch"]) +
        ((runs (· = '&') code.toList).map fun run => run.length / 2).sum +
        ((runs (· = '|') code.toList).map fun run => run.length / 2).sum := by
  have hwords (word : List Char) : word ∈ branchWords ↔ String.ofList word ∈
      ["if", "else", "while", "for", "switch", "case", "catch"] := by
    rw [branchWords, List.mem_map]
    constructor
    · rintro ⟨s, hs, rfl⟩
      rwa [String.ofList_toList]
    · exact fun h => ⟨_, h, String.toList_ofList⟩
  rw [countPaths_eq, turns, branchRuns, isWordChar_eq]
  simp only [hwords, pairRuns]
  omega

end CodeReview.Metrics
