import CodeReview.Json.Reader
import CodeReview.Text.Blank

/-!
The closed vocabularies of a review. Each word of a vocabulary has one name, by which it is written.
People and models write the names more freely: with blanks around them, in any case, with `_` for
`-`.
-/

namespace CodeReview

/-- A finite set of words with names. -/
class Vocabulary (α : Type) where
  /-- Every word, in the order in which they are shown. -/
  all : List α
  name : α → String

namespace Vocabulary

/-- The name that a freely written one stands for. -/
def looseKey (s : String) : String :=
  (Text.lowerAscii (Text.trim s)).map fun c => if c = '_' then '-' else c

/-- The word with exactly this name. -/
def ofName? [Vocabulary α] (s : String) : Option α :=
  (all : List α).find? fun a => name a = s

/-- The word that a freely written name stands for. -/
def ofLoose? [Vocabulary α] (s : String) : Option α :=
  ofName? (looseKey s)

/-- The names of a vocabulary, in order. -/
def names (α : Type) [Vocabulary α] : List String :=
  (all : List α).map name

def toJson [Vocabulary α] (a : α) : Json :=
  .text (name a)

/-- Words are read by their exact names only. -/
def reader [Vocabulary α] : Json.Reader α :=
  .choice ofName? (names α)

end Vocabulary

/-- What a review looks at. -/
inductive Focus where
  | grammar
  | security
  | performance
  | maintainability
  | bestPractices
deriving DecidableEq, Repr

instance : Vocabulary Focus where
  all := [.grammar, .security, .performance, .maintainability, .bestPractices]
  name
    | .grammar => "syntax"
    | .security => "security"
    | .performance => "performance"
    | .maintainability => "maintainability"
    | .bestPractices => "best-practices"

/-- What a review looks at when nobody says what. -/
def Focus.usual : List Focus := [.grammar, .bestPractices]

inductive IssueKind where
  | grammarError
  | securityVulnerability
  | performanceIssue
  | codeSmell
  | bugRisk
  | styleViolation
deriving DecidableEq, Repr

instance : Inhabited IssueKind := ⟨.codeSmell⟩

instance : Vocabulary IssueKind where
  all :=
    [.grammarError, .securityVulnerability, .performanceIssue, .codeSmell, .bugRisk,
     .styleViolation]
  name
    | .grammarError => "syntax-error"
    | .securityVulnerability => "security-vulnerability"
    | .performanceIssue => "performance-issue"
    | .codeSmell => "code-smell"
    | .bugRisk => "bug-risk"
    | .styleViolation => "style-violation"

inductive Severity where
  | error
  | warning
  | info
deriving DecidableEq, Repr

instance : Inhabited Severity := ⟨.info⟩

instance : Vocabulary Severity where
  all := [.error, .warning, .info]
  name
    | .error => "error"
    | .warning => "warning"
    | .info => "info"

inductive RefactorKind where
  | extractFunction
  | renameVariable
  | simplifyExpression
  | removeDuplication
  | optimizePerformance
  | improveReadability
deriving DecidableEq, Repr

instance : Inhabited RefactorKind := ⟨.improveReadability⟩

instance : Vocabulary RefactorKind where
  all :=
    [.extractFunction, .renameVariable, .simplifyExpression, .removeDuplication,
     .optimizePerformance, .improveReadability]
  name
    | .extractFunction => "extract-function"
    | .renameVariable => "rename-variable"
    | .simplifyExpression => "simplify-expression"
    | .removeDuplication => "remove-duplication"
    | .optimizePerformance => "optimize-performance"
    | .improveReadability => "improve-readability"

/-- How much a change of the code is expected to matter. -/
inductive Impact where
  | low
  | medium
  | high
deriving DecidableEq, Repr

instance : Inhabited Impact := ⟨.medium⟩

instance : Vocabulary Impact where
  all := [.low, .medium, .high]
  name
    | .low => "low"
    | .medium => "medium"
    | .high => "high"

/-- Who hosts the model. -/
inductive Provider where
  | gemini
deriving DecidableEq, Repr

instance : Inhabited Provider := ⟨.gemini⟩

instance : Vocabulary Provider where
  all := [.gemini]
  name
    | .gemini => "gemini"

end CodeReview
