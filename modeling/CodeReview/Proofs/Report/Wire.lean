import CodeReview.Proofs.Json.Record
import CodeReview.Proofs.Vocabulary
import CodeReview.Report.Basic

/-!
Reports on the wire: every part of a report is read back from what it is written as, in any encoding
of it, when the texts of its floats are read back.
-/

namespace CodeReview

open Json (Readable Reads)
open Json.Shape (fills_member fills_member?)

/-! ### What is written -/

section Readable

variable {P : Json.Number → Prop} {depth : Nat} (hword : ∀ n : Nat, n < 2 ^ 64 → P (.integer n))
include hword

theorem Location.readable (l : Location) : Readable P (depth + 1) l.toJson := by
  rw [toJson, Json.readable_object_iff]
  refine ⟨by simp, ?_⟩
  have half (n : UInt32) : Readable P depth (.ofNat n.toNat) :=
    Json.readable_number (hword _ (Nat.lt_trans n.toNat_lt (by decide)))
  simp only [List.forall_mem_cons]
  exact ⟨half _, half _, half _, half _, List.forall_mem_nil _⟩

theorem Issue.readable (i : Issue) : Readable P (depth + 2) i.toJson := by
  rw [toJson, Json.readable_object_iff]
  constructor
  · cases i.description <;> cases i.suggestedFix <;> cases i.ruleId <;> simp [Json.member?]
  · simp only [List.forall_mem_append, List.forall_mem_cons]
    exact ⟨⟨⟨⟨⟨Json.readable_text _, Json.readable_text _, Json.readable_text _,
      Json.readable_text _, List.forall_mem_nil _⟩, Json.readable_texts _ _⟩,
      i.location.readable hword, List.forall_mem_nil _⟩, Json.readable_texts _ _⟩,
      Json.readable_texts _ _⟩

theorem Suggestion.readable (s : Suggestion) (hreal : P (.real s.confidence)) :
    Readable P (depth + 2) s.toJson := by
  rw [toJson, Json.readable_object_iff]
  refine ⟨by simp, ?_⟩
  simp only [List.forall_mem_cons]
  exact ⟨Json.readable_text _, Json.readable_text _, Json.readable_text _, Json.readable_text _,
    s.location.readable hword, Json.readable_text _, Json.readable_text _,
    Json.readable_number hreal, Json.readable_text _, List.forall_mem_nil _⟩

theorem Metrics.readable (m : Metrics) (hdebt : P (.real m.technicalDebt))
    (hcoverage : ∀ x, m.testCoverage = some x → P (.real x)) :
    Readable P (depth + 1) m.toJson := by
  have hcount (n : Nat) (h : n < 2 ^ 64) : Readable P depth (.ofNat n) :=
    Json.readable_number (hword n h)
  have hindex : m.maintainabilityIndex.toNat < 2 ^ 64 :=
    Nat.lt_trans m.maintainabilityIndex.toNat_lt (by decide)
  rw [toJson, Json.readable_object_iff]
  refine ⟨by cases m.testCoverage <;> simp [Json.member?], ?_⟩
  simp only [List.forall_mem_append, List.forall_mem_cons, Json.forall_mem_member?]
  exact ⟨⟨hcount _ m.linesOfCode.toNat_lt, hcount _ m.cyclomaticComplexity.toNat_lt,
    hcount _ hindex, Json.readable_number hdebt, List.forall_mem_nil _⟩,
    fun x hx => Json.readable_number (hcoverage x hx)⟩

theorem Report.readable (r : Report) (hconfidence : ∀ s ∈ r.suggestions, P (.real s.confidence))
    (hdebt : P (.real r.metrics.technicalDebt))
    (hcoverage : ∀ x, r.metrics.testCoverage = some x → P (.real x)) :
    Readable P (depth + 4) r.toJson := by
  rw [toJson, Json.readable_object_iff]
  refine ⟨by simp, ?_⟩
  simp only [List.forall_mem_cons]
  have hissues : ∀ i ∈ r.issues, Readable P (depth + 2) i.toJson := fun i _ => i.readable hword
  have hsuggestions : ∀ s ∈ r.suggestions, Readable P (depth + 2) s.toJson :=
    fun s hs => s.readable hword (hconfidence s hs)
  exact ⟨Json.readable_list_iff.mpr (List.forall_mem_map.mpr hissues),
    Json.readable_list_iff.mpr (List.forall_mem_map.mpr hsuggestions),
    r.metrics.readable hword hdebt hcoverage,
    Json.readable_number (hword _ r.processingTime.toNat_lt), Json.readable_text _,
    List.forall_mem_nil _⟩

end Readable

/-! ### What is read -/

section Reads

variable {P : Json.Number → Prop} (hkept : ∀ n, P n → n.Kept)

theorem reads_name {α : Type} [Vocabulary α] [Vocabulary.Lawful α] (a : α) :
    Reads P Vocabulary.reader (Vocabulary.toJson a) a :=
  Json.reads_choice (Vocabulary.Lawful.ofName?_name a)

theorem reads_optionalText (s : String) : Reads P (.optional .text) (.text s) (some s) := by
  intro depth t ht
  obtain ⟨u, rfl, hu⟩ := Json.text_of_derives ht
  exact Json.Reader.takes_some (by decide) (Json.Reader.takes_spelled hu)

include hkept

theorem Location.reads (l : Location) : Reads P Location.shape.reader l.toJson l := by
  have half (n : UInt32) : Reads P .halfWord (.ofNat n.toNat) n.toNat :=
    Json.reads_natural hkept _ (Nat.le_of_lt_succ n.toNat_lt)
  refine Json.Shape.reads_record (.cons (fills_member rfl (half _)) <|
    .cons (fills_member rfl (half _)) <| .cons (fills_member rfl (half _)) <|
    .cons (fills_member rfl (half _)) .nil) ?_ ?_
  · simp [Json.Shape.Complete, shape, Json.member]
  · simp [shape]

theorem Issue.reads (i : Issue) : Reads P Issue.shape.reader i.toJson i := by
  refine Json.Shape.reads_record (List.rel_append (List.rel_append (List.rel_append (List.rel_append
    (.cons (fills_member rfl (Json.reads_text _)) <| .cons (fills_member rfl (reads_name _)) <|
      .cons (fills_member rfl (reads_name _)) <|
      .cons (fills_member rfl (Json.reads_text _)) .nil)
    (fills_member? fun _ => fills_member rfl (reads_optionalText _)))
    (.cons (fills_member rfl (i.location.reads hkept)) .nil))
    (fills_member? fun _ => fills_member rfl (reads_optionalText _)))
    (fills_member? fun _ => fills_member rfl (reads_optionalText _))) ?_ ?_
  · simp [Json.Shape.Complete, shape, Json.member]
  · obtain ⟨id, kind, severity, message, description, location, fix, rule⟩ := i
    cases description <;> cases fix <;> cases rule <;> rfl

theorem Suggestion.reads (s : Suggestion) : Reads P Suggestion.shape.reader s.toJson s := by
  refine Json.Shape.reads_record (.cons (fills_member rfl (Json.reads_text _)) <|
    .cons (fills_member rfl (Json.reads_text _)) <| .cons (fills_member rfl (Json.reads_text _)) <|
    .cons (fills_member rfl (reads_name _)) <|
    .cons (fills_member rfl (s.location.reads hkept)) <|
    .cons (fills_member rfl (Json.reads_text _)) <| .cons (fills_member rfl (Json.reads_text _)) <|
    .cons (fills_member rfl (Json.reads_float hkept _)) <|
    .cons (fills_member rfl (reads_name _)) .nil) ?_ ?_
  · simp [Json.Shape.Complete, shape, Json.member]
  · rfl

theorem Metrics.reads (m : Metrics) : Reads P Metrics.shape.reader m.toJson m := by
  have word (n : UInt64) : Reads P .count (.ofNat n.toNat) n.toNat :=
    Json.reads_natural hkept _ (Nat.le_of_lt_succ n.toNat_lt)
  have index : Reads P .byteWide (.ofNat m.maintainabilityIndex.toNat)
      m.maintainabilityIndex.toNat :=
    Json.reads_natural hkept _ (Nat.le_of_lt_succ m.maintainabilityIndex.toNat_lt)
  refine Json.Shape.reads_record (List.rel_append
    (.cons (fills_member rfl (word _)) <| .cons (fills_member rfl (word _)) <|
      .cons (fills_member rfl index) <|
      .cons (fills_member rfl (Json.reads_float hkept _)) .nil)
    (fills_member? fun x =>
      fills_member rfl (Json.reads_some hkept nofun (Json.reads_float hkept x)))) ?_ ?_
  · simp [Json.Shape.Complete, shape, Json.member]
  · obtain ⟨lines, paths, index, debt, coverage⟩ := m
    cases coverage <;> simp [shape]

theorem Report.reads (r : Report) : Reads P Report.shape.reader r.toJson r := by
  have hissues : Reads P (.list Issue.shape.reader) (.list (r.issues.map Issue.toJson)) r.issues :=
    Json.reads_list (List.forall₂_map_left_iff.mpr
      (List.forall₂_same.mpr fun i _ => i.reads hkept))
  have hsuggestions : Reads P (.list Suggestion.shape.reader)
      (.list (r.suggestions.map Suggestion.toJson)) r.suggestions :=
    Json.reads_list (List.forall₂_map_left_iff.mpr
      (List.forall₂_same.mpr fun s _ => s.reads hkept))
  have htime : Reads P .fullWord (.ofNat r.processingTime.toNat) r.processingTime.toNat :=
    Json.reads_natural hkept _ (Nat.le_of_lt_succ r.processingTime.toNat_lt)
  refine Json.Shape.reads_record (.cons (fills_member rfl hissues) <|
    .cons (fills_member rfl hsuggestions) <| .cons (fills_member rfl (r.metrics.reads hkept)) <|
    .cons (fills_member rfl htime) <| .cons (fills_member rfl (Json.reads_text _)) .nil) ?_ ?_
  · simp [Json.Shape.Complete, shape, Json.member]
  · simp [shape]

end Reads

/-! ### Whole reports -/

namespace Report

/-- The floats that are written in the report. -/
def floats (r : Report) : List Float :=
  r.suggestions.map Suggestion.confidence ++
    r.metrics.technicalDebt :: r.metrics.testCoverage.toList

theorem readable_kept (r : Report) (h : ∀ x ∈ r.floats, Json.Survives x) :
    Readable Json.Number.Kept Json.maxDepth r.toJson := by
  simp only [floats, List.forall_mem_append, List.forall_mem_map, List.forall_mem_cons,
    Option.mem_toList] at h
  obtain ⟨hconfidence, hdebt, hcoverage⟩ := h
  exact r.readable Json.Number.kept_word (fun s hs => Json.Number.kept_real (hconfidence s hs))
    (Json.Number.kept_real hdebt) fun x hx => Json.Number.kept_real (hcoverage x hx)

/-- A report is read back from every encoding of it, if the texts of its floats are. -/
theorem readText_encoded (r : Report) (h : ∀ x ∈ r.floats, Json.Survives x) {t : String}
    (ht : Json.Encodes Json.Number.Kept t r.toJson) :
    Json.readText shape.reader t = .ok r :=
  (r.reads fun _ => id).readText ht (r.readable_kept h)

end Report

end CodeReview
