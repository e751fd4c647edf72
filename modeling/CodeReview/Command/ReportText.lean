import CodeReview.Report.Basic
import CodeReview.Text.Split

/-!
Reports as text for people, in colours where they are wanted.
-/

namespace CodeReview.ReportText

/-- How a piece of text is shown; each has a code. -/
inductive Style where
  | bold
  | red
  | green
  | yellow
  | blue
deriving DecidableEq, Repr

def Style.code : Style → Nat
  | .bold => 1
  | .red => 31
  | .green => 32
  | .yellow => 33
  | .blue => 34

def reset : String := "\x1b[0m"

/-- A text in a style. A reset inside of the text does not end the style. -/
def styled (colours : Bool) (style : Style) (text : String) : String :=
  if colours then
    let start := "\x1b[" ++ toString style.code ++ "m"
    start ++ Text.replace reset (reset ++ start) text ++ reset
  else text

/-- Whether colours are wanted. A variable may ask for them, whatever else is said, and another one
may turn them down. Otherwise a terminal has them, unless a variable says that it has none. -/
def wantsColours (environment : List (String × String)) (terminal : Bool) : Bool :=
  if (environment.lookup "CLICOLOR_FORCE").any (· ≠ "0") then true
  else if (environment.lookup "NO_COLOR").isSome then false
  else terminal && (environment.lookup "CLICOLOR").all (· ≠ "0")

def Severity.style : Severity → Style
  | .error => .red
  | .warning => .yellow
  | .info => .blue

def metricsText (colours : Bool) (m : Metrics) : String :=
  styled colours .bold "METRICS" ++ "\n" ++
  "  Lines of code:          " ++ toString m.linesOfCode ++ "\n" ++
  "  Cyclomatic complexity:  " ++ toString m.cyclomaticComplexity ++ "\n" ++
  "  Maintainability index:  " ++ toString m.maintainabilityIndex ++ "\n" ++
  "  Technical debt:         " ++ Decimal.fixed 1 m.technicalDebt ++ " h\n"

def issueText (colours : Bool) (i : Issue) : String :=
  "  [" ++ styled colours (Severity.style i.severity) (Vocabulary.name i.severity) ++ "] " ++
  toString i.location.startLine ++ ":" ++ toString i.location.startColumn ++ " " ++ i.message ++
  " (" ++ Vocabulary.name i.kind ++ ")\n" ++
  match i.suggestedFix with
  | some fix => "      fix: " ++ fix ++ "\n"
  | none => ""

def suggestionText (s : Suggestion) : String :=
  "  " ++ s.title ++ " [" ++ Vocabulary.name s.kind ++ ", impact " ++ Vocabulary.name s.impact ++
  ", confidence " ++ Decimal.fixed 0 (s.confidence * 100.0) ++ "%]\n" ++
  "      " ++ s.description ++ "\n"

/-- A whole report on a file. -/
def render (colours : Bool) (file : String) (r : Report) : String :=
  styled colours .bold "CODELENS" ++ " " ++ file ++ "\n" ++
  "Model: " ++ styled colours (if r.isFallback then .yellow else .green) r.modelUsed ++
  "  (" ++ toString r.processingTime ++ " ms)\n\n" ++
  (if r.issues.isEmpty then styled colours .green "No issues reported" ++ "\n"
   else
     styled colours .bold "ISSUES" ++ "\n" ++ String.join (r.issues.map (issueText colours))) ++
  (if r.suggestions.isEmpty then ""
   else
     "\n" ++ styled colours .bold "SUGGESTIONS" ++ "\n" ++
       String.join (r.suggestions.map suggestionText)) ++
  "\n" ++ metricsText colours r.metrics

end CodeReview.ReportText
