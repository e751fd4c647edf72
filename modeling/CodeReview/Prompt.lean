import CodeReview.Vocabulary

/-!
The instruction that a model is given: who it is, the code as it is, the form of the answer, and
what to look at.
-/

namespace CodeReview.Prompt

/-- What to look at when a request names nothing. -/
def defaultFocus : String := "general code quality"

/-- The names that are not blank, one after the other. -/
def focusText (focus : List String) : String :=
  match focus.filterMap Text.nonBlank? with
  | [] => defaultFocus
  | names => ", ".intercalate names

/-- The names of a vocabulary as alternatives. -/
def alternatives (α : Type) [Vocabulary α] : String :=
  "|".intercalate (Vocabulary.names α)

/-- The JSON form in which the answer is wanted. -/
def contract : String :=
  "\n".intercalate
    ["\x7b",
     "  \"issues\": [",
     "    \x7b",
     "      \"type\": \"" ++ alternatives IssueKind ++ "\",",
     "      \"severity\": \"" ++ alternatives Severity ++ "\",",
     "      \"message\": \"Brief description of the issue\",",
     "      \"description\": \"Detailed explanation\",",
     "      \"startLine\": number,",
     "      \"startColumn\": number,",
     "      \"endLine\": number,",
     "      \"endColumn\": number,",
     "      \"suggestedFix\": \"How to fix this issue\"",
     "    \x7d",
     "  ],",
     "  \"suggestions\": [",
     "    \x7b",
     "      \"title\": \"Brief title\",",
     "      \"description\": \"Detailed description\",",
     "      \"type\": \"" ++ alternatives RefactorKind ++ "\",",
     "      \"startLine\": number,",
     "      \"startColumn\": number,",
     "      \"endLine\": number,",
     "      \"endColumn\": number,",
     "      \"originalCode\": \"code snippet\",",
     "      \"refactoredCode\": \"improved code snippet\",",
     "      \"confidence\": 0.0-1.0,",
     "      \"impact\": \"" ++ alternatives Impact ++ "\"",
     "    \x7d",
     "  ]",
     "\x7d"]

/-- What stands before the code. -/
def header (language : String) : String :=
  "You are an expert code reviewer. Analyze the following " ++ language ++
    " code and provide detailed feedback.\n\n" ++ "Code to analyze:\n"

/-- What stands after the code. -/
def trailer (focus : List String) : String :=
  "\n\n" ++ "Please provide your analysis in the following JSON format:\n" ++ contract ++ "\n" ++
    "Focus on: " ++ focusText focus ++ "\n" ++ "Provide practical, actionable feedback.\n"

/-- The whole instruction. -/
def build (language code : String) (focus : List String) : String :=
  header language ++ code ++ trailer focus

end CodeReview.Prompt
