import CodeReview.Proofs.Vocabulary
import CodeReview.Report.Findings

/-!
The words of a finding. A member of an entry counts as a word exactly when it is a text with the
name of that word in a free spelling; every other member counts as the usual word.
-/

namespace CodeReview

open Vocabulary (WritesFreely name ofLoose?)

/-! ### Members -/

namespace Json

variable {α : Type} [Vocabulary α] [Inhabited α]

/-- The word of a member: the one with a name that the member is a free spelling of, or the usual
one if the member is no free spelling of any name. -/
inductive MeansWord (key : String) (entry : Json) : α → Prop
  | named {t : String} {a : α} (ht : entry.field? key = some (.text t))
      (ha : WritesFreely t (name a)) : MeansWord key entry a
  | usual (h : ∀ t, entry.field? key = some (.text t) → ∀ a : α, ¬ WritesFreely t (name a)) :
      MeansWord key entry default

theorem text?_eq_some_iff {v : Json} {t : String} : v.text? = some t ↔ v = .text t := by
  cases v <;> simp [text?]

variable [Vocabulary.Plain α] {key : String} {entry : Json}

theorem looseWord_eq :
    entry.looseWord key = (((entry.field? key).bind text?).bind ofLoose?).getD (default : α) := by
  have hread : (fun t => (Text.nonBlank? t).bind ofLoose?) = (ofLoose? : String → Option α) :=
    funext fun _ => Vocabulary.bind_nonBlank?_ofLoose?
  rw [looseWord, looseText?, Option.bind_assoc, hread]

theorem meansWord_looseWord : MeansWord key entry (entry.looseWord key : α) := by
  rw [looseWord_eq]
  cases h : ((entry.field? key).bind text?).bind (ofLoose? : String → Option α) with
  | some a =>
      obtain ⟨t, ht, ha⟩ := Option.bind_eq_some_iff.mp h
      obtain ⟨v, hv, hvt⟩ := Option.bind_eq_some_iff.mp ht
      obtain rfl := text?_eq_some_iff.mp hvt
      exact .named hv (Vocabulary.ofLoose?_eq_some_iff.mp ha)
  | none =>
      refine .usual fun t ht a ha => ?_
      rw [ht, Option.bind_some, text?, Option.bind_some,
        Vocabulary.ofLoose?_eq_some_iff.mpr ha] at h
      cases h

end Json

/-! ### Vocabularies -/

/-- Each text stands for one word at most: for the word with a name that it is a free spelling of.
Every word is in the list of the words, and is found under its own name. -/
structure Vocabulary.ReadsFreely (α : Type) [Vocabulary α] : Prop where
  exact (s : String) (a : α) : ofLoose? s = some a ↔ WritesFreely s (name a)
  unique {s : String} {a b : α} : WritesFreely s (name a) → WritesFreely s (name b) → a = b
  listed (a : α) : a ∈ Vocabulary.all
  named (a : α) : ofLoose? (name a) = some a

theorem Vocabulary.readsFreely {α : Type} [Vocabulary α] [Plain α] : ReadsFreely α where
  exact _ _ := ofLoose?_eq_some_iff
  unique := eq_of_writesFreely
  listed a := List.mem_of_find?_eq_some (Lawful.ofName?_name a)
  named := Lawful.ofLoose?_name

/-- The words that are read from what people and models write, in all vocabularies and in the
findings of a reply. -/
theorem Findings.read_freely :
    (Vocabulary.ReadsFreely Focus ∧ Vocabulary.ReadsFreely IssueKind ∧
      Vocabulary.ReadsFreely Severity ∧ Vocabulary.ReadsFreely RefactorKind ∧
      Vocabulary.ReadsFreely Impact) ∧
    (∀ (index : Nat) (entry : Json),
      Json.MeansWord "type" entry (Issue.ofEntry index entry).kind ∧
        Json.MeansWord "severity" entry (Issue.ofEntry index entry).severity) ∧
    ∀ (index : Nat) (entry : Json),
      Json.MeansWord "type" entry (Suggestion.ofEntry index entry).kind ∧
        Json.MeansWord "impact" entry (Suggestion.ofEntry index entry).impact := by
  refine ⟨⟨?_, ?_, ?_, ?_, ?_⟩, fun index entry => ⟨?_, ?_⟩, fun index entry => ⟨?_, ?_⟩⟩
  · exact Vocabulary.readsFreely
  · exact Vocabulary.readsFreely
  · exact Vocabulary.readsFreely
  · exact Vocabulary.readsFreely
  · exact Vocabulary.readsFreely
  · exact Json.meansWord_looseWord
  · exact Json.meansWord_looseWord
  · exact Json.meansWord_looseWord
  · exact Json.meansWord_looseWord

end CodeReview
