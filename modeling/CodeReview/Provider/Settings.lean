import CodeReview.Json.Printer
import CodeReview.Json.Record
import CodeReview.Text.Blank

/-!
Settings of the client of a hosted model. They come from defaults, from a file and from the
environment, in this order, and each of these goes over what came before it.
-/

namespace CodeReview

open Json (Shape member)

/-- The values of the variables of an environment. -/
abbrev Environment := String → Option String

/-- The value of a variable, unless it is blank. -/
def Environment.given? (env : Environment) (key : String) : Option String :=
  (env key).filter fun v => !Text.allBlank v

structure ModelSettings where
  /-- A secret: it is read, but never written. -/
  apiKey : Option String
  model : String
  /-- The root of the addresses of the service. -/
  baseUrl : String
  temperature : Float
  maxOutputTokens : UInt32
  timeoutSeconds : UInt64

namespace ModelSettings

def default : ModelSettings where
  apiKey := none
  model := "gemini-pro"
  baseUrl := "https://generativelanguage.googleapis.com/v1beta"
  temperature := 0.1
  maxOutputTokens := 2000
  timeoutSeconds := 30

instance : Inhabited ModelSettings := ⟨default⟩

def withApiKey (key : String) (s : ModelSettings) : ModelSettings :=
  { s with apiKey := some key }

def withModel (model : String) (s : ModelSettings) : ModelSettings :=
  { s with model }

/-- A text without the slashes at its end. -/
def withoutSlashes (url : String) : String :=
  String.ofList (url.toList.reverse.dropWhile (· = '/')).reverse

def withBaseUrl (url : String) (s : ModelSettings) : ModelSettings :=
  { s with baseUrl := withoutSlashes url }

def withTemperature (t : Float) (s : ModelSettings) : ModelSettings :=
  { s with temperature := t }

def withMaxOutputTokens (n : UInt32) (s : ModelSettings) : ModelSettings :=
  { s with maxOutputTokens := n }

def withTimeoutSeconds (n : UInt64) (s : ModelSettings) : ModelSettings :=
  { s with timeoutSeconds := n }

/-- The variables that may hold the secret; the first one that is given counts. -/
def apiKeyVariables : List String := ["GOOGLE_API_KEY", "GEMINI_API_KEY"]

/-- The settings with those that the environment gives. -/
def overlay (env : Environment) (s : ModelSettings) : ModelSettings :=
  let s := match apiKeyVariables.findSome? env.given? with
    | some key => s.withApiKey key
    | none => s
  let s := match env.given? "CODELENS_MODEL" with
    | some model => s.withModel model
    | none => s
  match env.given? "CODELENS_MODEL_BASE_URL" with
  | some url => s.withBaseUrl url
  | none => s

/-- A secret is known, and it is not the empty text. -/
def hasApiKey (s : ModelSettings) : Bool :=
  s.apiKey.any fun key => key ≠ ""

/-- How long a model may take, in milliseconds. -/
def patience (s : ModelSettings) : Nat :=
  s.timeoutSeconds.toNat * 1000

def toJson (s : ModelSettings) : Json :=
  .object
    [("model", .text s.model), ("base_url", .text s.baseUrl),
     ("temperature", .ofFloat s.temperature),
     ("max_output_tokens", .ofNat s.maxOutputTokens.toNat),
     ("timeout_secs", .ofNat s.timeoutSeconds.toNat)]

def shape : Shape ModelSettings where
  name := "GeminiConfig"
  blank := default
  members :=
    [member "api_key" .defaulted (.optional .text) fun k s => { s with apiKey := k },
     member "model" .defaulted .text fun m s => { s with model := m },
     member "base_url" .defaulted .text fun u s => { s with baseUrl := u },
     member "temperature" .defaulted .float fun t s => { s with temperature := t },
     member "max_output_tokens" .defaulted .halfWord
       fun n s => { s with maxOutputTokens := n.toUInt32 },
     member "timeout_secs" .defaulted .fullWord
       fun n s => { s with timeoutSeconds := n.toUInt64 }]

end ModelSettings

end CodeReview
