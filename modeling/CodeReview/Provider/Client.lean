import CodeReview.Analysis
import CodeReview.Net.Header
import CodeReview.Provider.Settings

/-!
The client of the hosted model. A prompt becomes one request to the service, and the response of the
service becomes a reply or a failure. The secret stands in a header of the request and nowhere else.
-/

namespace CodeReview.Client

open Json (Shape member)

/-- What is to be sent to the service. Whether it gets there is known from what comes back. -/
structure Call where
  method : String
  url : String
  contentType : String
  apiKey : Option String
  body : String
deriving DecidableEq, Repr

/-- What comes back. -/
inductive Response where
  | answered (status : Nat) (body : Json.Bytes)
  /-- No response, and there will be none: the call cannot be sent, since its address is none or
  leads nowhere, or the connection broke. -/
  | closed
  /-- Nothing, for as long as one may wait. -/
  | silent
deriving DecidableEq, Repr

/-- The address at which the model is asked. -/
def endpoint (s : ModelSettings) : String :=
  s.baseUrl ++ "/models/" ++ s.model ++ ":generateContent"

def callBody (s : ModelSettings) (prompt : String) : Json :=
  .object
    [("contents",
      .list [.object
        [("role", .text "user"), ("parts", .list [.object [("text", .text prompt)]])]]),
     ("generationConfig",
      .object
        [("temperature", .ofFloat s.temperature),
         ("maxOutputTokens", .ofNat s.maxOutputTokens.toNat)])]

def call (s : ModelSettings) (prompt : String) : Call where
  method := "POST"
  url := endpoint s
  contentType := "application/json"
  apiKey := s.apiKey.map Net.sentValue
  body := Json.compact (callBody s prompt)

/-! ### Responses -/

structure Part where
  text : Option String

def Part.shape : Shape Part where
  name := "GeminiPart"
  blank := ⟨none⟩
  members := [member "text" .defaulted (.optional .text) fun t p => { p with text := t }]

structure Content where
  role : Option String
  parts : List Part

def Content.shape : Shape Content where
  name := "GeminiContent"
  blank := ⟨none, []⟩
  members :=
    [member "role" .defaulted (.optional .text) fun r c => { c with role := r },
     member "parts" .defaulted (.list Part.shape.reader) fun ps c => { c with parts := ps }]

structure Candidate where
  content : Option Content

def Candidate.shape : Shape Candidate where
  name := "GeminiCandidate"
  blank := ⟨none⟩
  members :=
    [member "content" .defaulted (.optional Content.shape.reader)
      fun c a => { a with content := c }]

structure Completion where
  candidates : List Candidate

def Completion.shape : Shape Completion where
  name := "GeminiResponse"
  blank := ⟨[]⟩
  members :=
    [member "candidates" .defaulted (.list Candidate.shape.reader)
      fun cs c => { c with candidates := cs }]

/-- The texts of the parts of the first candidate, one after the other. -/
def Completion.text? (c : Completion) : Option String :=
  (c.candidates.head?.bind Candidate.content).map fun content =>
    String.join (content.parts.filterMap Part.text)

def sendFailure : String := "Failed to send request to Gemini"

/-- What a response means. -/
def understand : Response → Answer
  | .silent => .silence
  | .closed => .failure [sendFailure]
  | .answered status body =>
    if Net.isSuccess status then
      match Json.read Completion.shape.reader body with
      | .error refusal =>
        .failure
          ["Failed to parse Gemini response",
           "error decoding response body: " ++ refusal.message, refusal.message]
      | .ok completion =>
        match completion.text? with
        | some text => .reply text
        | none => .failure ["Gemini returned no candidates"]
    else
      .failure
        ["Gemini API error (" ++ Net.statusLine status ++ "): " ++ Text.ofBytesLossy body]

/-- The settings allow a call to be made: the secret, if there is one, can stand in a header. -/
def canSend (s : ModelSettings) : Bool :=
  s.apiKey.all Net.isHeaderValue

/-- The model that is asked through this client. -/
def reviewer (s : ModelSettings) : Reviewer :=
  ⟨s.model, s.patience⟩

/-- The course of one prompt. What cannot be made a call of fails at once. -/
def ask (s : ModelSettings) (prompt : String) : Course Call (Timed Response) Reaction :=
  if canSend s then
    .once (call s prompt) fun response => (reviewer s).heard (response.map understand)
  else .done ⟨.failure [sendFailure], 0⟩

end CodeReview.Client
