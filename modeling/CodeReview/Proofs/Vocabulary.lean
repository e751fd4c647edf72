import CodeReview.Proofs.Text.Trim
import CodeReview.Vocabulary
import Mathlib

/-!
The words of every vocabulary are found under their names, and under no other texts than their names
in a free spelling: with blanks around them, with capital letters, with `_` for `-`.
-/

namespace CodeReview.Vocabulary

theorem looseKey_eq (s : String) :
    looseKey s = String.ofList ((Text.trimChars s.toList).map fun c =>
      if c.toLower = '_' then '-' else c.toLower) := by
  apply String.toList_injective
  rw [looseKey, Text.lowerAscii, Text.trim, String.toList_map, String.toList_map,
    String.toList_ofList, String.toList_ofList, List.map_map]
  rfl

/-- Every word is found under its own name, read as it is written or as freely as names are read. -/
class Lawful (α : Type) [Vocabulary α] : Prop where
  trimmed (a : α) : Text.Trimmed (name a)
  ofName?_name (a : α) : ofName? (name a) = some a
  ofLoose?_name (a : α) : ofLoose? (name a) = some a

instance : Lawful Focus where
  trimmed a := by cases a <;> decide
  ofName?_name a := by cases a <;> decide
  ofLoose?_name a := by
    rw [ofLoose?, looseKey_eq]
    cases a <;> decide

instance : Lawful IssueKind where
  trimmed a := by cases a <;> decide
  ofName?_name a := by cases a <;> decide
  ofLoose?_name a := by
    rw [ofLoose?, looseKey_eq]
    cases a <;> decide

instance : Lawful Severity where
  trimmed a := by cases a <;> decide
  ofName?_name a := by cases a <;> decide
  ofLoose?_name a := by
    rw [ofLoose?, looseKey_eq]
    cases a <;> decide

instance : Lawful RefactorKind where
  trimmed a := by cases a <;> decide
  ofName?_name a := by cases a <;> decide
  ofLoose?_name a := by
    rw [ofLoose?, looseKey_eq]
    cases a <;> decide

instance : Lawful Impact where
  trimmed a := by cases a <;> decide
  ofName?_name a := by cases a <;> decide
  ofLoose?_name a := by
    rw [ofLoose?, looseKey_eq]
    cases a <;> decide

instance : Lawful Provider where
  trimmed a := by cases a; decide
  ofName?_name a := by cases a; decide
  ofLoose?_name a := by
    rw [ofLoose?, looseKey_eq]
    cases a
    decide

theorem ofName?_eq_some_iff {α : Type} [Vocabulary α] [Lawful α] {s : String} {a : α} :
    ofName? s = some a ↔ s = name a := by
  constructor
  · intro h
    have hname := List.find?_some h
    exact (of_decide_eq_true hname).symm
  · rintro rfl
    exact Lawful.ofName?_name a

/-! ### Names in a free spelling -/

/-- A character of a free spelling, and the character of the name that it is there for: the same
one, the small letter of a capital one, or `-` for `_`. Only the letters `A` to `Z` are capital. -/
inductive Alike : Char → Char → Prop
  | same (c : Char) : Alike c c
  | capital {c d : Char} (hc : c.isUpper = true) (h : d.toNat = c.toNat + 32) : Alike c d
  | underscore : Alike '_' '-'

/-- The text is the name in a free spelling, perhaps with blanks around it. -/
def WritesFreely (s name : String) : Prop :=
  ∃ before word after, s.toList = before ++ word ++ after ∧
    before.all Text.isBlank = true ∧ after.all Text.isBlank = true ∧
    List.Forall₂ Alike word name.toList

/-- A small letter or a hyphen. -/
def isPlain (c : Char) : Bool :=
  'a' ≤ c && c ≤ 'z' || c = '-'

/-- Names show something, and small letters and hyphens are all that stands in them. -/
class Plain (α : Type) [Vocabulary α] : Prop extends Lawful α where
  shows (a : α) : (name a).toList ≠ []
  plain (a : α) : (name a).toList.all isPlain = true

instance : Plain Focus where
  shows a := by cases a <;> decide
  plain a := by cases a <;> decide

instance : Plain IssueKind where
  shows a := by cases a <;> decide
  plain a := by cases a <;> decide

instance : Plain Severity where
  shows a := by cases a <;> decide
  plain a := by cases a <;> decide

instance : Plain RefactorKind where
  shows a := by cases a <;> decide
  plain a := by cases a <;> decide

instance : Plain Impact where
  shows a := by cases a <;> decide
  plain a := by cases a <;> decide

theorem isPlain_iff {c : Char} : isPlain c = true ↔ (97 ≤ c.toNat ∧ c.toNat ≤ 122) ∨ c = '-' := by
  simp only [isPlain, Bool.or_eq_true, Bool.and_eq_true, decide_eq_true_eq, Char.le_def,
    UInt32.le_iff_toNat_le]
  exact Iff.rfl

theorem isUpper_iff {c : Char} : c.isUpper = true ↔ 65 ≤ c.toNat ∧ c.toNat ≤ 90 := by
  simp only [Char.isUpper, decide_eq_true_eq, ge_iff_le, UInt32.le_iff_toNat_le]
  exact Iff.rfl

theorem not_isUpper_of_isPlain {c : Char} (h : isPlain c = true) : ¬ c.isUpper = true := by
  rw [isUpper_iff]
  rcases isPlain_iff.mp h with h | rfl
  · omega
  · decide

theorem isPlain_toLower {c : Char} (h : c.isUpper = true) :
    isPlain c.toLower = true ∧ c.toLower.toNat = c.toNat + 32 := by
  have hc := isUpper_iff.mp h
  have hlower : c.toLower.toNat = c.toNat + 32 := by
    rw [Char.toLower_eq_of_isUpper h, Char.toNat_ofNat, if_pos (.inl (by omega))]
  exact ⟨isPlain_iff.mpr (.inl (by omega)), hlower⟩

/-- The character that stands in a name for a character of a free spelling. -/
theorem alike_iff {c d : Char} (hd : isPlain d = true) :
    Alike c d ↔ (if c.toLower = '_' then '-' else c.toLower) = d := by
  constructor
  · intro h
    cases h with
    | same =>
        rw [Char.toLower_eq_of_not_isUpper (not_isUpper_of_isPlain hd), if_neg]
        rintro rfl
        exact absurd hd (by decide)
    | capital hc h =>
        obtain ⟨hplain, hlower⟩ := isPlain_toLower hc
        rw [if_neg]
        · exact Char.toNat_inj.mp (hlower.trans h.symm)
        · intro hmark
          rw [hmark] at hplain
          exact absurd hplain (by decide)
    | underscore => decide
  · rintro rfl
    by_cases hc : c.isUpper = true
    · split
      · rename_i hmark
        have hplain := (isPlain_toLower hc).1
        rw [hmark] at hplain
        exact absurd hplain (by decide)
      · exact .capital hc (isPlain_toLower hc).2
    · rw [Char.toLower_eq_of_not_isUpper hc]
      split
      · rename_i hmark
        rw [hmark]
        exact .underscore
      · exact .same c

theorem forall₂_alike_iff {cs ds : List Char} (hds : ds.all isPlain = true) :
    List.Forall₂ Alike cs ds ↔
      (cs.map fun c => if c.toLower = '_' then '-' else c.toLower) = ds := by
  induction ds generalizing cs with
  | nil => simp
  | cons d ds ih =>
      rw [List.all_cons, Bool.and_eq_true] at hds
      cases cs with
      | nil => simp
      | cons c cs =>
          rw [List.forall₂_cons, alike_iff hds.1, ih hds.2, List.map_cons, List.cons.injEq]

/-- No character of a free spelling is blank. -/
theorem Alike.isBlank_eq {c d : Char} (h : Alike c d) (hd : isPlain d = true) :
    Text.isBlank c = false := by
  have hc : (45 ≤ c.toNat ∧ c.toNat ≤ 122) := by
    cases h with
    | same =>
        rcases isPlain_iff.mp hd with hd | rfl
        · omega
        · decide
    | capital hc => have := isUpper_iff.mp hc; omega
    | underscore => decide
  simp only [Text.isBlank, Text.blankRanges, List.any_cons, List.any_nil, Bool.or_eq_false_iff,
    Bool.and_eq_false_iff, decide_eq_false_iff_not, and_true]
  omega

theorem trimChars_of_forall₂ {before word after ds : List Char} (hds : ds.all isPlain = true)
    (hshows : ds ≠ []) (hbefore : before.all Text.isBlank = true)
    (hafter : after.all Text.isBlank = true) (hword : List.Forall₂ Alike word ds) :
    Text.trimChars (before ++ word ++ after) = word := by
  have hmap := (forall₂_alike_iff hds).mp hword
  have hseen : ∀ c ∈ word, Text.isBlank c = false := by
    intro c hc
    have hd := List.all_eq_true.mp hds _ (hmap ▸ List.mem_map_of_mem hc)
    exact Alike.isBlank_eq ((alike_iff hd).mpr rfl) hd
  refine Text.trimChars_append hbefore hafter ?_ (fun c hc => hseen c (List.mem_of_mem_head? hc))
    fun c hc => hseen c (List.mem_of_mem_getLast? hc)
  rintro rfl
  exact hshows (List.forall₂_nil_left_iff.mp hword)

theorem writesFreely_iff {s name : String} (hplain : name.toList.all isPlain = true)
    (hshows : name.toList ≠ []) : WritesFreely s name ↔ looseKey s = name := by
  have hkey : looseKey s = name ↔
      List.Forall₂ Alike (Text.trimChars s.toList) name.toList := by
    rw [forall₂_alike_iff hplain, looseKey_eq, ← String.toList_inj, String.toList_ofList]
  rw [hkey]
  constructor
  · rintro ⟨before, word, after, hs, hbefore, hafter, hword⟩
    rwa [hs, trimChars_of_forall₂ hplain hshows hbefore hafter hword]
  · intro h
    obtain ⟨before, after, hs, hbefore, hafter⟩ := Text.trimChars_split s.toList
    exact ⟨before, _, after, hs, hbefore, hafter, h⟩

section Words

variable {α : Type} [Vocabulary α] [Plain α] {s : String} {a b : α}

theorem ofLoose?_eq_some_iff : ofLoose? s = some a ↔ WritesFreely s (name a) := by
  rw [ofLoose?, ofName?_eq_some_iff, writesFreely_iff (Plain.plain a) (Plain.shows a)]

/-- A text is a free spelling of one word at most. -/
theorem eq_of_writesFreely (ha : WritesFreely s (name a)) (hb : WritesFreely s (name b)) :
    a = b :=
  Option.some.inj ((ofLoose?_eq_some_iff.mpr ha).symm.trans (ofLoose?_eq_some_iff.mpr hb))

/-- Nothing changes when a text is trimmed before its word is looked up. -/
theorem bind_nonBlank?_ofLoose? : (Text.nonBlank? s).bind ofLoose? = (ofLoose? s : Option α) := by
  cases hs : Text.allBlank s with
  | true =>
      have hkey : looseKey s = "" := by
        apply String.toList_injective
        rw [looseKey, Text.trim_eq_empty_iff.mpr hs, Text.lowerAscii, String.toList_map,
          String.toList_map]
        rfl
      rw [Text.nonBlank?_eq_none_iff.mpr hs, Option.bind_none, eq_comm, ofLoose?, hkey,
        Option.eq_none_iff_forall_ne_some]
      intro a ha
      have hname := ofName?_eq_some_iff.mp ha
      exact Plain.shows a (by rw [← hname]; rfl)
  | false =>
      rw [Text.nonBlank?_eq_some_iff.mpr ⟨hs, rfl⟩, Option.bind_some, ofLoose?, ofLoose?, looseKey,
        (Text.trimmed_trim hs).trim_eq, looseKey]

end Words

end CodeReview.Vocabulary
