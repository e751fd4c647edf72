import CodeReview.Json.Record
import CodeReview.Vocabulary

/-!
Requests for a review and the jobs that they ask for. A request may lack anything, so that what is
missing can be reported to whoever sent it; a job has all that a review needs.
-/

namespace CodeReview

open Json (Shape member)

structure Request where
  code : Option String := none
  language : Option String := none
  filename : Option String := none
  provider : Option Provider := none
  focus : Option (List String) := none
deriving DecidableEq, Repr

/-- A request that can be answered. -/
structure Job where
  code : String
  language : String
  filename : Option String
  provider : Provider
  focus : List String
deriving DecidableEq, Repr

/-- Why a review ended without a report. -/
inductive AnalysisError where
  | invalidRequest (message : String)
  | modelInvocation (message : String)
  /-- The model was silent for so many milliseconds. -/
  | timeout (ms : Nat)
  | internal (message : String)
deriving DecidableEq, Repr

namespace AnalysisError

def message : AnalysisError → String
  | .invalidRequest m => m
  | .modelInvocation m => "Model invocation failed: " ++ m
  | .timeout ms => "Model invocation timed out after " ++ toString ms ++ "ms"
  | .internal m => "Internal error: " ++ m

/-- Whoever sent the request has to mend it. -/
def isClientError : AnalysisError → Bool
  | .invalidRequest _ => true
  | _ => false

/-- A failure of the model. Each failure is followed by the one that caused it. -/
def ofFailure (chain : List String) : AnalysisError :=
  .modelInvocation (": ".intercalate chain)

end AnalysisError

namespace Request

def missingFields : String := "Code and language are required"

/-- The job that a request asks for. The code must show something and the language must have a
name; the code stays as it is, the name loses the blanks around it. -/
def validate (r : Request) : Except AnalysisError Job :=
  let code := r.code.filter fun c => !Text.allBlank c
  let language := r.language.bind Text.nonBlank?
  match code, language with
  | some code, some language =>
    .ok
      { code
        language
        filename := r.filename
        provider := r.provider.getD default
        focus := r.focus.getD (Focus.usual.map Vocabulary.name) }
  | _, _ => .error (.invalidRequest missingFields)

def toJson (r : Request) : Json :=
  .object
    ([("code", Json.orNull (r.code.map .text)),
      ("language", Json.orNull (r.language.map .text))] ++
     Json.member? "filename" (r.filename.map .text) ++
     Json.member? "modelProvider" (r.provider.map Vocabulary.toJson) ++
     Json.member? "analysisType" (r.focus.map Json.ofTexts))

def shape : Shape Request where
  name := "AnalysisRequest"
  blank := {}
  members :=
    [member "code" .optional (.optional .text) fun s r => { r with code := s },
     member "language" .optional (.optional .text) fun s r => { r with language := s },
     member "filename" .optional (.optional .text) fun s r => { r with filename := s },
     member "modelProvider" .optional (.optional Vocabulary.reader)
       fun p r => { r with provider := p },
     member "analysisType" .optional (.optional (.list .text)) fun ts r => { r with focus := ts }]

end Request

end CodeReview
