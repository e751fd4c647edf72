import CodeReview.Proofs.Report.Paths

/-!
Metrics line by line. What is counted in a text is counted in its lines, each by itself. So neither
the order of the lines nor the way in which they end matters, and lines that show nothing do not
count.
-/

namespace CodeReview.Metrics

/-! ### Lines that show something -/

@[simp] theorem count_add (t : LineTally) (c : Char) :
    (t.add c).count = 0 ↔ t.count = 0 ∧ shows c = false := by
  obtain ⟨full, showing⟩ := t
  by_cases hc : c = '\n'
  · subst hc
    have hblank : shows '\n' = false := by decide
    simp [LineTally.add, LineTally.count, hblank]
  · simp [LineTally.add, LineTally.count, hc, and_assoc]

theorem count_foldl_eq_zero_iff (cs : List Char) (t : LineTally) :
    (cs.foldl LineTally.add t).count = 0 ↔ t.count = 0 ∧ ∀ c ∈ cs, shows c = false := by
  induction cs generalizing t with
  | nil => simp
  | cons c cs ih => simp [ih, and_assoc]

/-- A text has no line that counts when nothing in it can be seen. -/
theorem countLines_eq_zero_iff {code : String} :
    countLines code = 0 ↔ ∀ c ∈ code.toList, shows c = false := by
  rw [countLines, count_foldl_eq_zero_iff]
  simp [LineTally.count]

/-- Lines that were counted before are counted once. -/
theorem count_foldl_add (cs : List Char) (full : Nat) (showing : Bool) :
    (cs.foldl LineTally.add ⟨full, showing⟩).count =
      full + (cs.foldl LineTally.add ⟨0, showing⟩).count := by
  induction cs generalizing full showing with
  | nil => simp [LineTally.count]
  | cons c cs ih =>
      simp only [List.foldl_cons, LineTally.add]
      split
      · rw [ih (full + showing.toNat), ih (0 + showing.toNat)]
        omega
      · exact ih full _

theorem countLines_append (a b : String) :
    countLines (a ++ "\n" ++ b) = countLines a + countLines b := by
  have hend (t : LineTally) : t.add '\n' = ⟨t.count, false⟩ := rfl
  rw [countLines, String.toList_append, String.toList_append, List.foldl_append, List.foldl_append]
  change (b.toList.foldl LineTally.add (LineTally.add _ '\n')).count = _
  rw [hend, count_foldl_add]
  rfl

theorem count_foldl_le (cs : List Char) (t : LineTally) :
    (cs.foldl LineTally.add t).count ≤ t.count + cs.length := by
  induction cs generalizing t with
  | nil => simp
  | cons c cs ih =>
      have hadd : (t.add c).count ≤ t.count + 1 := by
        unfold LineTally.add LineTally.count
        split
        · exact Nat.le_succ _
        · cases t.showing <;> cases shows c <;> simp
      have hrest := ih (t.add c)
      rw [List.foldl_cons, List.length_cons]
      omega

/-- Each line that counts has a character of its own. -/
theorem countLines_le_length (code : String) : countLines code ≤ code.length := by
  have hstart : LineTally.count ⟨0, false⟩ = 0 := rfl
  have hcode := count_foldl_le code.toList ⟨0, false⟩
  rwa [hstart, String.length_toList, Nat.zero_add] at hcode

/-! ### Paths -/

theorem countPaths_append (a b : String) :
    countPaths (a ++ "\n" ++ b) + 1 = countPaths a + countPaths b := by
  have hsplit : (a ++ "\n" ++ b).toList = a.toList ++ '\n' :: b.toList := by simp
  rw [countPaths_eq, hsplit, turns_append_cons (by decide) (by decide) (by decide), countPaths_eq,
    countPaths_eq]
  omega

theorem toNat_lt_of_inWords {c : Char} (h : inWords c = true) : c.toNat < 128 := by
  simp only [inWords, Bool.or_eq_true, Bool.and_eq_true, decide_eq_true_eq, Char.le_def,
    UInt32.le_iff_toNat_le] at h
  change ((48 ≤ c.toNat ∧ c.toNat ≤ 57 ∨ 65 ≤ c.toNat ∧ c.toNat ≤ 90) ∨
    97 ≤ c.toNat ∧ c.toNat ≤ 122) ∨ c = '_' at h
  rcases h with h | rfl
  · omega
  · decide

/-- The characters of words can be seen. -/
theorem shows_of_isWordChar {c : Char} (h : isWordChar c = true) : shows c = true := by
  have hall : ∀ n : Fin 128, inWords (Char.ofNat n) = true → shows (Char.ofNat n) = true := by
    decide
  rw [isWordChar_eq] at h
  have hc := hall ⟨c.toNat, toNat_lt_of_inWords h⟩
  rw [Char.ofNat_toNat] at hc
  exact hc h

/-- There is no turn where nothing can be seen. -/
theorem turns_eq_zero {cs : List Char} (h : ∀ c ∈ cs, shows c = false) : turns cs = 0 := by
  induction cs with
  | nil => rfl
  | cons c cs ih =>
      obtain ⟨hc, hcs⟩ := List.forall_mem_cons.mp h
      have hword : isWordChar c = false :=
        Bool.eq_false_iff.mpr fun hword => by simp [shows_of_isWordChar hword] at hc
      have hand : c ≠ '&' := by
        rintro rfl
        exact absurd hc (by decide)
      have hor : c ≠ '|' := by
        rintro rfl
        exact absurd hc (by decide)
      have hcons : turns ([] ++ c :: cs) = turns [] + turns cs :=
        turns_append_cons hword hand hor [] cs
      exact hcons.trans (congrArg (0 + ·) (ih hcs))

/-! ### Texts and their lines -/

/-- What a text adds to the metrics of the text that it is a part of: lines and turns. -/
def tally (code : String) : Nat × Nat :=
  (countLines code, turns code.toList)

theorem ofCode_congr {a b : String} (h : tally a = tally b) : ofCode a = ofCode b := by
  obtain ⟨hlines, hturns⟩ := Prod.ext_iff.mp h
  have hpaths : countPaths a = countPaths b := by
    rw [countPaths_eq, countPaths_eq]
    exact congrArg (1 + ·) hturns
  simp only [tally] at hlines
  rw [ofCode, ofCode, hlines, hpaths]

theorem tally_append (a b : String) : tally (a ++ "\n" ++ b) = tally a + tally b := by
  have hpaths := countPaths_append a b
  rw [countPaths_eq, countPaths_eq, countPaths_eq] at hpaths
  refine Prod.ext (countLines_append a b) ?_
  change turns (a ++ "\n" ++ b).toList = turns a.toList + turns b.toList
  omega

theorem tally_eq_zero {code : String} (h : ∀ c ∈ code.toList, shows c = false) : tally code = 0 :=
  Prod.ext (countLines_eq_zero_iff.mpr h) (turns_eq_zero h)

@[simp] theorem tally_empty : tally "" = 0 :=
  tally_eq_zero (by simp)

theorem tally_intercalate (parts : List String) :
    tally ("\n".intercalate parts) = (parts.map tally).sum := by
  induction parts with
  | nil => simp
  | cons part parts ih =>
      cases parts with
      | nil => simp
      | cons next parts => simp [String.intercalate_cons_cons, tally_append, ih]

theorem tally_split (code : String) :
    tally code = ((Text.split (· = '\n') code).map tally).sum := by
  conv_lhs => rw [← Text.intercalate_split '\n' code]
  exact tally_intercalate _

/-- A carriage return at the end of a text adds nothing to it. -/
@[simp] theorem tally_return (code : String) : tally (code ++ "\r") = tally code := by
  have hsplit : (code ++ "\r").toList = code.toList ++ '\r' :: [] := by simp
  have hblank (t : LineTally) : (t.add '\r').count = t.count := by
    have hreturn : shows '\r' = false := by decide
    simp [LineTally.add, LineTally.count, hreturn]
  refine Prod.ext ?_ ?_
  · change countLines (code ++ "\r") = countLines code
    rw [countLines, hsplit, List.foldl_append, List.foldl_cons, List.foldl_nil, hblank, countLines]
  · change turns (code ++ "\r").toList = turns code.toList
    rw [hsplit, turns_append_cons (by decide) (by decide) (by decide)]
    rfl

theorem tally_intercalate_return (parts : List String) :
    tally ("\r\n".intercalate parts) = (parts.map tally).sum := by
  induction parts with
  | nil => simp
  | cons part parts ih =>
      cases parts with
      | nil => simp
      | cons next parts =>
          have hmark : part ++ "\r\n" = part ++ "\r" ++ "\n" := by
            rw [String.append_assoc]
            rfl
          rw [String.intercalate_cons_cons, hmark, tally_append, tally_return, ih]
          simp

/-- A line without the carriage return that stands before its line feed. -/
def withoutReturn (part : String) : String :=
  if part.toList.getLast? = some '\r' then String.ofList part.toList.dropLast else part

/-- The lines of a text. A line ends with a line feed, or with a carriage return and a line feed.
The last one may lack this end; if nothing is left for it, it is no line. -/
def lines (code : String) : List String :=
  let parts := Text.split (· = '\n') code
  parts.dropLast.map withoutReturn ++ parts.getLast?.toList.filter (· ≠ "")

@[simp] theorem tally_withoutReturn (part : String) : tally (withoutReturn part) = tally part := by
  rw [withoutReturn]
  split
  · rename_i hlast
    have hpart : part = String.ofList part.toList.dropLast ++ "\r" := by
      apply String.toList_injective
      simpa using (List.dropLast_append_getLast? '\r' hlast).symm
    conv_rhs => rw [hpart, tally_return]
  · rfl

theorem tally_lines (code : String) : tally code = ((lines code).map tally).sum := by
  rw [tally_split, lines]
  rcases List.eq_nil_or_concat (Text.split (· = '\n') code) with hparts | ⟨parts, last, hparts⟩
  · simp [hparts]
  · have hmap : (parts.map withoutReturn).map tally = parts.map tally := by simp
    have hlast : ((Option.toList (some last)).filter (· ≠ "")).map tally =
        if last = "" then [] else [tally last] := by
      by_cases h : last = "" <;> simp [h]
    simp only [hparts, List.concat_eq_append, List.dropLast_concat, List.getLast?_concat,
      List.map_append, List.sum_append, hmap, hlast]
    by_cases h : last = "" <;> simp [h]

/-- What is counted is counted line by line. So the metrics of a code do not depend on the order of
its lines, with their ends or without them, on lines that show nothing, on how its lines end, and on
an end of the last one. -/
theorem ofCode_lines :
    (∀ a b : String, countLines (a ++ "\n" ++ b) = countLines a + countLines b ∧
      countPaths (a ++ "\n" ++ b) + 1 = countPaths a + countPaths b) ∧
    (∀ a b : String, (lines a).Perm (lines b) → ofCode a = ofCode b) ∧
    (∀ parts parts' : List String, parts.Perm parts' →
      ofCode ("\n".intercalate parts) = ofCode ("\n".intercalate parts')) ∧
    (∀ before blank after : List String,
      (∀ line ∈ blank, ∀ c ∈ line.toList, Text.isBlank c = true ∨ c = '\uFEFF') →
      ofCode ("\n".intercalate (before ++ blank ++ after)) =
        ofCode ("\n".intercalate (before ++ after))) ∧
    (∀ code : String, ofCode ("\r\n".intercalate (Text.split (· = '\n') code)) = ofCode code) ∧
    ∀ code : String, ofCode (code ++ "\n") = ofCode code := by
  refine ⟨fun a b => ⟨countLines_append a b, countPaths_append a b⟩, ?_, ?_, ?_, ?_, ?_⟩
  · intro a b h
    apply ofCode_congr
    rw [tally_lines a, tally_lines b, (h.map tally).sum_eq]
  · intro parts parts' h
    apply ofCode_congr
    rw [tally_intercalate, tally_intercalate, (h.map tally).sum_eq]
  · intro before blank after hblank
    apply ofCode_congr
    have hshows (c : Char) (h : Text.isBlank c = true ∨ c = '\uFEFF') : shows c = false := by
      rcases h with h | rfl
      · simp [shows, h]
      · decide
    have hnothing : (blank.map tally).sum = 0 := by
      refine List.sum_eq_zero fun t ht => ?_
      obtain ⟨line, hline, rfl⟩ := List.mem_map.mp ht
      exact tally_eq_zero fun c hc => hshows c (hblank line hline c hc)
    simp [tally_intercalate, hnothing]
  · intro code
    apply ofCode_congr
    rw [tally_intercalate_return, ← tally_split]
  · intro code
    apply ofCode_congr
    have hend := tally_append code ""
    rwa [String.append_empty, tally_empty, add_zero] at hend

end CodeReview.Metrics
