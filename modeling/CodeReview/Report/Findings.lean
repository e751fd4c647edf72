import CodeReview.Decimal.Numeral
import CodeReview.Reply
import CodeReview.Report.Basic

/-!
Issues and suggestions from the entries of a reply. A model may write anything: what is missing or
has no meaning is replaced by a default, so each entry becomes one issue or one suggestion, in
order and with an id of its own.
-/

namespace CodeReview

/-- A number that is written as a number or as a text. -/
def Json.looseNumber? : Json → Option Float
  | .number n => some n.toFloat
  | .text s => Decimal.parseFloat? (Text.trim s)
  | _ => none

/-- A text member that shows something, without the blanks around it. -/
def Json.looseText? (key : String) (entry : Json) : Option String :=
  ((entry.field? key).bind Json.text?).bind Text.nonBlank?

/-- The word that a text member stands for, or the usual one. -/
def Json.looseWord [Vocabulary α] [Inhabited α] (key : String) (entry : Json) : α :=
  ((entry.looseText? key).bind Vocabulary.ofLoose?).getD default

/-- The code of a member, with all its blanks. -/
def Json.codeText (key : String) (entry : Json) : String :=
  ((entry.field? key).bind Json.text?).getD ""

namespace Location

/-- A line or a column: a number from one on, cut to a whole one that fits. -/
def coordinate? (v : Json) : Option UInt32 :=
  match v.looseNumber? with
  | some x => if x.isFinite && 1.0 ≤ x then some x.toUInt32 else none
  | none => none

/-- A coordinate of an entry. One that stands in the entry itself comes before one in its
`location`. -/
def coordinate (entry : Json) (key : String) : UInt32 :=
  match (entry.field? key).bind coordinate? with
  | some n => n
  | none =>
    (((entry.field? "location").bind (Json.field? key)).bind coordinate?).getD 1

def ofEntry (entry : Json) : Location where
  startLine := coordinate entry "startLine"
  startColumn := coordinate entry "startColumn"
  endLine := coordinate entry "endLine"
  endColumn := coordinate entry "endColumn"

end Location

namespace Issue

def defaultMessage : String := "Code analysis issue"

def ofEntry (index : Nat) (entry : Json) : Issue where
  id := "issue-" ++ toString index
  kind := entry.looseWord "type"
  severity := entry.looseWord "severity"
  message := (entry.looseText? "message").getD defaultMessage
  description := entry.looseText? "description"
  location := .ofEntry entry
  suggestedFix := entry.looseText? "suggestedFix"
  ruleId := entry.looseText? "ruleId"

end Issue

namespace Suggestion

def defaultTitle : String := "Refactor suggestion"

def defaultDescription : String := "Consider refactoring this code"

def defaultConfidence : Float := 0.7

/-- A confidence from 0 to 1. -/
def confidenceOf (entry : Json) : Float :=
  match (entry.field? "confidence").bind Json.looseNumber? with
  | some x => if x.isFinite && 0.0 ≤ x && x ≤ 1.0 then x else defaultConfidence
  | none => defaultConfidence

def ofEntry (index : Nat) (entry : Json) : Suggestion where
  id := "suggestion-" ++ toString index
  title := (entry.looseText? "title").getD defaultTitle
  description := (entry.looseText? "description").getD defaultDescription
  kind := entry.looseWord "type"
  location := .ofEntry entry
  originalCode := entry.codeText "originalCode"
  refactoredCode := entry.codeText "refactoredCode"
  confidence := confidenceOf entry
  impact := entry.looseWord "impact"

end Suggestion

/-- The part of a report that comes from the model. -/
structure Findings where
  issues : List Issue
  suggestions : List Suggestion

namespace Findings

def ofEntries (e : Reply.Entries) : Findings where
  issues := e.issues.mapIdx Issue.ofEntry
  suggestions := e.suggestions.mapIdx Suggestion.ofEntry

/-- What a reply of a model says. -/
def ofReply (text : String) : Findings :=
  ofEntries (Reply.entries text)

end Findings

end CodeReview
