import CodeReview.Json.Record
import CodeReview.Vocabulary

/-!
The report of a review: the issues that were found, the changes that are suggested, and the metrics
of the code. Each part of a report is a record with a JSON form, which `toJson` writes and `shape`
reads.
-/

namespace CodeReview

open Json (Shape member)

/-- A stretch of code. Lines and columns are counted from one. -/
structure Location where
  startLine : UInt32
  startColumn : UInt32
  endLine : UInt32
  endColumn : UInt32
deriving DecidableEq, Repr

namespace Location

/-- The first character of the code. -/
def origin : Location := ⟨1, 1, 1, 1⟩

def toJson (l : Location) : Json :=
  .object
    [("startLine", .ofNat l.startLine.toNat), ("startColumn", .ofNat l.startColumn.toNat),
     ("endLine", .ofNat l.endLine.toNat), ("endColumn", .ofNat l.endColumn.toNat)]

def shape : Shape Location where
  name := "CodeLocation"
  blank := origin
  members :=
    [member "startLine" .required .halfWord fun n l => { l with startLine := n.toUInt32 },
     member "startColumn" .required .halfWord fun n l => { l with startColumn := n.toUInt32 },
     member "endLine" .required .halfWord fun n l => { l with endLine := n.toUInt32 },
     member "endColumn" .required .halfWord fun n l => { l with endColumn := n.toUInt32 }]

end Location

/-- A problem in the code. -/
structure Issue where
  id : String
  kind : IssueKind
  severity : Severity
  message : String
  description : Option String
  location : Location
  suggestedFix : Option String
  ruleId : Option String
deriving DecidableEq, Repr

namespace Issue

def toJson (i : Issue) : Json :=
  .object
    ([("id", .text i.id), ("type", Vocabulary.toJson i.kind),
      ("severity", Vocabulary.toJson i.severity), ("message", .text i.message)] ++
     Json.member? "description" (i.description.map .text) ++
     [("location", i.location.toJson)] ++
     Json.member? "suggestedFix" (i.suggestedFix.map .text) ++
     Json.member? "ruleId" (i.ruleId.map .text))

def shape : Shape Issue where
  name := "CodeIssue"
  blank := ⟨"", default, default, "", none, .origin, none, none⟩
  members :=
    [member "id" .required .text fun s i => { i with id := s },
     member "type" .required Vocabulary.reader fun k i => { i with kind := k },
     member "severity" .required Vocabulary.reader fun s i => { i with severity := s },
     member "message" .required .text fun s i => { i with message := s },
     member "description" .defaulted (.optional .text) fun s i => { i with description := s },
     member "location" .required Location.shape.reader fun l i => { i with location := l },
     member "suggestedFix" .defaulted (.optional .text) fun s i => { i with suggestedFix := s },
     member "ruleId" .defaulted (.optional .text) fun s i => { i with ruleId := s }]

end Issue

/-- A proposed change of the code. -/
structure Suggestion where
  id : String
  title : String
  description : String
  kind : RefactorKind
  location : Location
  originalCode : String
  refactoredCode : String
  /-- From 0 to 1. -/
  confidence : Float
  impact : Impact

namespace Suggestion

def toJson (s : Suggestion) : Json :=
  .object
    [("id", .text s.id), ("title", .text s.title), ("description", .text s.description),
     ("type", Vocabulary.toJson s.kind), ("location", s.location.toJson),
     ("originalCode", .text s.originalCode), ("refactoredCode", .text s.refactoredCode),
     ("confidence", .ofFloat s.confidence), ("impact", Vocabulary.toJson s.impact)]

def shape : Shape Suggestion where
  name := "RefactorSuggestion"
  blank := ⟨"", "", "", default, .origin, "", "", 0, default⟩
  members :=
    [member "id" .required .text fun t s => { s with id := t },
     member "title" .required .text fun t s => { s with title := t },
     member "description" .required .text fun t s => { s with description := t },
     member "type" .required Vocabulary.reader fun k s => { s with kind := k },
     member "location" .required Location.shape.reader fun l s => { s with location := l },
     member "originalCode" .required .text fun t s => { s with originalCode := t },
     member "refactoredCode" .required .text fun t s => { s with refactoredCode := t },
     member "confidence" .required .float fun x s => { s with confidence := x },
     member "impact" .required Vocabulary.reader fun i s => { s with impact := i }]

end Suggestion

/-- What can be counted without understanding the code. -/
structure Metrics where
  linesOfCode : UInt64
  cyclomaticComplexity : UInt64
  maintainabilityIndex : UInt8
  /-- In hours, with one decimal place. -/
  technicalDebt : Float
  testCoverage : Option Float

namespace Metrics

def toJson (m : Metrics) : Json :=
  .object
    ([("linesOfCode", .ofNat m.linesOfCode.toNat),
      ("cyclomaticComplexity", .ofNat m.cyclomaticComplexity.toNat),
      ("maintainabilityIndex", .ofNat m.maintainabilityIndex.toNat),
      ("technicalDebt", .ofFloat m.technicalDebt)] ++
     Json.member? "testCoverage" (m.testCoverage.map .ofFloat))

def shape : Shape Metrics where
  name := "CodeMetrics"
  blank := ⟨0, 0, 0, 0, none⟩
  members :=
    [member "linesOfCode" .required .count fun n m => { m with linesOfCode := n.toUInt64 },
     member "cyclomaticComplexity" .required .count
       fun n m => { m with cyclomaticComplexity := n.toUInt64 },
     member "maintainabilityIndex" .required .byteWide
       fun n m => { m with maintainabilityIndex := n.toUInt8 },
     member "technicalDebt" .required .float fun x m => { m with technicalDebt := x },
     member "testCoverage" .defaulted (.optional .float)
       fun x m => { m with testCoverage := x }]

end Metrics

/-- The whole answer to a request. -/
structure Report where
  issues : List Issue
  suggestions : List Suggestion
  metrics : Metrics
  /-- In milliseconds. -/
  processingTime : UInt64
  modelUsed : String

namespace Report

/-- Named as the model of a report for which no model could be asked. -/
def fallbackModel : String := "fallback-analyzer"

def fallbackMessage : String :=
  "AI analysis temporarily unavailable - showing basic metrics only"

/-- The report was made without a model. -/
def isFallback (r : Report) : Bool :=
  r.modelUsed = fallbackModel

/-- The report made without a model: the metrics, and one issue that says so. -/
def fallback (metrics : Metrics) (processingTime : UInt64) : Report where
  issues := [⟨"fallback-1", .codeSmell, .info, fallbackMessage, none, .origin, none, none⟩]
  suggestions := []
  metrics := metrics
  processingTime := processingTime
  modelUsed := fallbackModel

def toJson (r : Report) : Json :=
  .object
    [("issues", .list (r.issues.map Issue.toJson)),
     ("suggestions", .list (r.suggestions.map Suggestion.toJson)),
     ("metrics", r.metrics.toJson), ("processingTime", .ofNat r.processingTime.toNat),
     ("modelUsed", .text r.modelUsed)]

def shape : Shape Report where
  name := "AnalysisResponse"
  blank := ⟨[], [], Metrics.shape.blank, 0, ""⟩
  members :=
    [member "issues" .required (.list Issue.shape.reader) fun is r => { r with issues := is },
     member "suggestions" .required (.list Suggestion.shape.reader)
       fun ss r => { r with suggestions := ss },
     member "metrics" .required Metrics.shape.reader fun m r => { r with metrics := m },
     member "processingTime" .required .fullWord
       fun n r => { r with processingTime := n.toUInt64 },
     member "modelUsed" .required .text fun s r => { r with modelUsed := s }]

end Report

end CodeReview
