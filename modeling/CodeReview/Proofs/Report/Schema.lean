import CodeReview.Proofs.Decimal.Binary64
import CodeReview.Proofs.Text.Trim
import CodeReview.Report.Findings

/-!
What a report promises about its findings, whatever the model wrote: one finding for each entry, in
order and under an id of its own, texts that show something, coordinates from one on, and
confidences from zero to one.
-/

namespace CodeReview

/-! ### Parts of a finding -/

/-- Lines and columns are counted from one, and fit into 32 bits. -/
structure Location.Conforms (l : Location) : Prop where
  startLine : 1 ≤ l.startLine.toNat ∧ l.startLine.toNat ≤ 2 ^ 32 - 1
  startColumn : 1 ≤ l.startColumn.toNat ∧ l.startColumn.toNat ≤ 2 ^ 32 - 1
  endLine : 1 ≤ l.endLine.toNat ∧ l.endLine.toNat ≤ 2 ^ 32 - 1
  endColumn : 1 ≤ l.endColumn.toNat ∧ l.endColumn.toNat ≤ 2 ^ 32 - 1

/-- The message shows something, and so does each further text that there is. -/
structure Issue.Conforms (i : Issue) : Prop where
  message : Text.Trimmed i.message
  description : ∀ s, i.description = some s → Text.Trimmed s
  location : i.location.Conforms
  suggestedFix : ∀ s, i.suggestedFix = some s → Text.Trimmed s
  ruleId : ∀ s, i.ruleId = some s → Text.Trimmed s

structure Suggestion.Conforms (s : Suggestion) : Prop where
  title : Text.Trimmed s.title
  description : Text.Trimmed s.description
  location : s.location.Conforms
  confidence : s.confidence.isFinite = true ∧ 0.0 ≤ s.confidence ∧ s.confidence ≤ 1.0

namespace Json

theorem trimmed_of_looseText? {key : String} {entry : Json} {s : String}
    (h : entry.looseText? key = some s) : Text.Trimmed s := by
  rw [looseText?, Option.bind_eq_some_iff] at h
  obtain ⟨t, -, ht⟩ := h
  exact Text.trimmed_of_nonBlank? ht

theorem trimmed_looseText?_getD {key usual : String} (entry : Json) (h : Text.Trimmed usual) :
    Text.Trimmed ((entry.looseText? key).getD usual) := by
  cases hs : entry.looseText? key with
  | none => exact h
  | some s => exact trimmed_of_looseText? hs

/-- Two values that have the same members, except perhaps for one. -/
def SameBut (key : String) (v w : Json) : Prop :=
  ∀ k, k ≠ key → v.field? k = w.field? k

end Json

namespace Location

theorem one_le_of_coordinate? {v : Json} {n : UInt32} (h : coordinate? v = some n) :
    1 ≤ n.toNat := by
  unfold coordinate? at h
  split at h
  · split at h
    · rename_i x _ hx
      rw [Bool.and_eq_true, decide_eq_true_iff] at hx
      cases h
      exact Decimal.one_le_toUInt32 hx.1 hx.2
    · cases h
  · cases h

theorem one_le_coordinate (entry : Json) (key : String) : 1 ≤ (coordinate entry key).toNat := by
  unfold coordinate
  split
  · rename_i n h
    obtain ⟨v, -, hv⟩ := Option.bind_eq_some_iff.mp h
    exact one_le_of_coordinate? hv
  · cases h : ((entry.field? "location").bind (Json.field? key)).bind coordinate? with
    | none => decide
    | some n =>
        obtain ⟨v, -, hv⟩ := Option.bind_eq_some_iff.mp h
        exact one_le_of_coordinate? hv

theorem coordinate_bounds (entry : Json) (key : String) :
    1 ≤ (coordinate entry key).toNat ∧ (coordinate entry key).toNat ≤ 2 ^ 32 - 1 :=
  ⟨one_le_coordinate entry key, Nat.le_pred_of_lt (UInt32.toNat_lt _)⟩

theorem conforms_ofEntry (entry : Json) : (ofEntry entry).Conforms where
  startLine := coordinate_bounds entry _
  startColumn := coordinate_bounds entry _
  endLine := coordinate_bounds entry _
  endColumn := coordinate_bounds entry _

end Location

/-! ### One finding -/

theorem Issue.conforms_ofEntry (index : Nat) (entry : Json) : (ofEntry index entry).Conforms where
  message := Json.trimmed_looseText?_getD entry (by decide)
  description := fun _ => Json.trimmed_of_looseText?
  location := Location.conforms_ofEntry entry
  suggestedFix := fun _ => Json.trimmed_of_looseText?
  ruleId := fun _ => Json.trimmed_of_looseText?

theorem Suggestion.confidenceOf_bounds (entry : Json) :
    (confidenceOf entry).isFinite = true ∧ 0.0 ≤ confidenceOf entry ∧ confidenceOf entry ≤ 1.0 := by
  have usual : defaultConfidence.isFinite = true ∧ 0.0 ≤ defaultConfidence ∧
      defaultConfidence ≤ 1.0 := by
    decide +kernel
  unfold confidenceOf
  split
  · split
    · rename_i x _ hx
      simp only [Bool.and_eq_true, decide_eq_true_iff] at hx
      exact ⟨hx.1.1, hx.1.2, hx.2⟩
    · exact usual
  · exact usual

theorem Suggestion.conforms_ofEntry (index : Nat) (entry : Json) :
    (ofEntry index entry).Conforms where
  title := Json.trimmed_looseText?_getD entry (by decide)
  description := Json.trimmed_looseText?_getD entry (by decide)
  location := Location.conforms_ofEntry entry
  confidence := confidenceOf_bounds entry

section SameBut

variable {v w : Json} (h : v.SameBut "id" w)
include h

theorem Location.ofEntry_congr : ofEntry v = ofEntry w := by
  simp only [ofEntry, coordinate, h "startLine" (by decide), h "startColumn" (by decide),
    h "endLine" (by decide), h "endColumn" (by decide), h "location" (by decide)]

theorem Issue.ofEntry_congr (index : Nat) : ofEntry index v = ofEntry index w := by
  simp only [ofEntry, Json.looseWord, Json.looseText?, h "type" (by decide),
    h "severity" (by decide), h "message" (by decide), h "description" (by decide),
    h "suggestedFix" (by decide), h "ruleId" (by decide), Location.ofEntry_congr h]

theorem Suggestion.ofEntry_congr (index : Nat) : ofEntry index v = ofEntry index w := by
  simp only [ofEntry, Json.looseWord, Json.looseText?, Json.codeText, confidenceOf,
    h "title" (by decide), h "description" (by decide), h "type" (by decide),
    h "originalCode" (by decide), h "refactoredCode" (by decide), h "confidence" (by decide),
    h "impact" (by decide), Location.ofEntry_congr h]

end SameBut

/-! ### All findings -/

theorem mapIdx_congr {α β : Type} {f : Nat → α → β} {R : α → α → Prop} {xs ys : List α}
    (hf : ∀ {x y}, R x y → ∀ n, f n x = f n y) (h : List.Forall₂ R xs ys) :
    xs.mapIdx f = ys.mapIdx f := by
  induction h generalizing f with
  | nil => rfl
  | cons hxy _ ih =>
      rw [List.mapIdx_cons, List.mapIdx_cons, hf hxy]
      congr 1
      exact ih fun hr n => hf hr (n + 1)

theorem toString_nat_injective {n k : Nat} (h : toString n = toString k) : n = k := by
  have hdigits : Nat.toDigits 10 n = Nat.toDigits 10 k := by
    rw [← Nat.toList_repr, ← Nat.toList_repr]
    exact congrArg String.toList h
  rw [← Nat.ofDigitChars_ten_toDigits (n := n), hdigits, Nat.ofDigitChars_ten_toDigits]

/-- Texts that differ in a number at the end only are all different. -/
theorem nodup_numbered (label : String) (n : Nat) :
    ((List.range n).map fun i => label ++ toString i).Nodup := by
  apply List.Nodup.map _ List.nodup_range
  intro i j h
  exact toString_nat_injective (String.append_right_inj _ |>.mp h)

theorem map_mapIdx_numbered {α β : Type} (make : Nat → α → β) (id : β → String) {label : String}
    (h : ∀ n a, id (make n a) = label ++ toString n) (xs : List α) :
    (xs.mapIdx make).map id = (List.range xs.length).map fun n => label ++ toString n := by
  apply List.ext_getElem
  · simp
  · intro n h₁ h₂
    rw [List.getElem_map, List.getElem_mapIdx, h, List.getElem_map, List.getElem_range]

namespace Findings

/-- The findings are those of the entries: one for each entry, in order, under an id that the model
has no say in, and each of them as the schema of a report wants it. -/
structure Conforms (e : Reply.Entries) (f : Findings) : Prop where
  issues : ∀ n : Nat, f.issues[n]? = e.issues[n]?.map (Issue.ofEntry n)
  suggestions : ∀ n : Nat, f.suggestions[n]? = e.suggestions[n]?.map (Suggestion.ofEntry n)
  issueIds :
    f.issues.map Issue.id = (List.range e.issues.length).map fun n => "issue-" ++ toString n
  suggestionIds :
    f.suggestions.map Suggestion.id =
      (List.range e.suggestions.length).map fun n => "suggestion-" ++ toString n
  distinct : (f.issues.map Issue.id ++ f.suggestions.map Suggestion.id).Nodup
  /-- Entries with other ids lead to the same findings. -/
  unnamed : ∀ e' : Reply.Entries,
    List.Forall₂ (Json.SameBut "id") e.issues e'.issues →
    List.Forall₂ (Json.SameBut "id") e.suggestions e'.suggestions → ofEntries e' = f
  eachIssue : ∀ i ∈ f.issues, i.Conforms
  eachSuggestion : ∀ s ∈ f.suggestions, s.Conforms

theorem ofEntries_issueIds (e : Reply.Entries) :
    (ofEntries e).issues.map Issue.id =
      (List.range e.issues.length).map fun n => "issue-" ++ toString n :=
  map_mapIdx_numbered Issue.ofEntry Issue.id (fun _ _ => rfl) e.issues

theorem ofEntries_suggestionIds (e : Reply.Entries) :
    (ofEntries e).suggestions.map Suggestion.id =
      (List.range e.suggestions.length).map fun n => "suggestion-" ++ toString n :=
  map_mapIdx_numbered Suggestion.ofEntry Suggestion.id (fun _ _ => rfl) e.suggestions

theorem ofEntries_distinct (e : Reply.Entries) :
    ((ofEntries e).issues.map Issue.id ++ (ofEntries e).suggestions.map Suggestion.id).Nodup := by
  rw [ofEntries_issueIds, ofEntries_suggestionIds, List.nodup_append]
  refine ⟨nodup_numbered _ _, nodup_numbered _ _, ?_⟩
  intro a ha b hb hab
  obtain ⟨n, -, rfl⟩ := List.mem_map.mp ha
  obtain ⟨k, -, rfl⟩ := List.mem_map.mp hb
  -- The two kinds of ids differ in their first letter.
  have hfirst := congrArg (fun s : String => s.toList.head?) hab
  simp only [String.toList_append] at hfirst
  cases hfirst

theorem ofEntries_congr {e e' : Reply.Entries}
    (hissues : List.Forall₂ (Json.SameBut "id") e.issues e'.issues)
    (hsuggestions : List.Forall₂ (Json.SameBut "id") e.suggestions e'.suggestions) :
    ofEntries e = ofEntries e' := by
  have issues : e.issues.mapIdx Issue.ofEntry = e'.issues.mapIdx Issue.ofEntry :=
    mapIdx_congr (fun h n => Issue.ofEntry_congr h n) hissues
  have suggestions : e.suggestions.mapIdx Suggestion.ofEntry =
      e'.suggestions.mapIdx Suggestion.ofEntry :=
    mapIdx_congr (fun h n => Suggestion.ofEntry_congr h n) hsuggestions
  rw [ofEntries, ofEntries, issues, suggestions]

theorem conforms_ofEntries (e : Reply.Entries) : (ofEntries e).Conforms e where
  issues := fun _ => List.getElem?_mapIdx
  suggestions := fun _ => List.getElem?_mapIdx
  issueIds := ofEntries_issueIds e
  suggestionIds := ofEntries_suggestionIds e
  distinct := ofEntries_distinct e
  unnamed := fun _ hissues hsuggestions => (ofEntries_congr hissues hsuggestions).symm
  eachIssue := by
    intro i hi
    obtain ⟨n, hn, rfl⟩ := List.mem_mapIdx.mp hi
    exact Issue.conforms_ofEntry n _
  eachSuggestion := by
    intro s hs
    obtain ⟨n, hn, rfl⟩ := List.mem_mapIdx.mp hs
    exact Suggestion.conforms_ofEntry n _

/-- Whatever a model replies, its findings are those of the entries that were read from the reply;
and whatever the entries are, their findings are what the schema of a report wants. -/
theorem ofReply_conforms (text : String) (e : Reply.Entries) :
    (ofReply text).Conforms (Reply.entries text) ∧ (ofEntries e).Conforms e :=
  ⟨conforms_ofEntries _, conforms_ofEntries e⟩

end Findings

end CodeReview
