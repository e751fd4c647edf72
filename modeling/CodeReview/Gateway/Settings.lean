import CodeReview.Gateway.Error
import CodeReview.Net.Address
import CodeReview.Path
import CodeReview.Provider.Client
import CodeReview.Toml.Reader

/-!
Settings of the gateway: where it listens, which web sites may use it, and which model it asks. They
come from defaults, from a file, from the environment and from the command line, each of which goes
over what came before it.
-/

namespace CodeReview

open Json (Shape member)

structure GatewaySettings where
  host : String
  port : UInt16
  /-- The web sites that may use the gateway; `*` stands for all of them. -/
  origins : List String
  model : ModelSettings

namespace GatewaySettings

def default : GatewaySettings where
  host := "127.0.0.1"
  port := 8080
  origins := ["http://localhost:3000"]
  model := .default

instance : Inhabited GatewaySettings := ⟨default⟩

def withHost (host : String) (s : GatewaySettings) : GatewaySettings :=
  { s with host }

def withPort (port : UInt16) (s : GatewaySettings) : GatewaySettings :=
  { s with port }

def withOrigins (origins : List String) (s : GatewaySettings) : GatewaySettings :=
  { s with origins }

def withModel (model : ModelSettings) (s : GatewaySettings) : GatewaySettings :=
  { s with model }

/-- The host and the port, as they are written. -/
def addressText (s : GatewaySettings) : String :=
  s.host ++ ":" ++ toString s.port

/-- The address to listen at. -/
def address (s : GatewaySettings) : Except GatewayError Net.SocketAddress :=
  match Net.SocketAddress.ofText? s.addressText with
  | some a => .ok a
  | none => .error (.invalidConfig (s.addressText ++ ": invalid socket address syntax"))

/-! ### The environment -/

/-- The items of a list with commas that are not blank. -/
def commaItems (text : String) : List String :=
  (Text.split (· = ',') text).filterMap Text.nonBlank?

/-- The settings with those that the environment gives. -/
def overlay (env : Environment) (s : GatewaySettings) : Except GatewayError GatewaySettings := do
  let s := match env.given? "CODELENS_HOST" with
    | some host => s.withHost host
    | none => s
  let s ← match env.given? "CODELENS_PORT" with
    | some text =>
      match Decimal.parseNat? (UInt16.size - 1) (Text.trim text) with
      | some n => .ok (s.withPort n.toUInt16)
      | none => .error (.invalidConfig ("CODELENS_PORT=" ++ text))
    | none => .ok s
  let s := match env.given? "CODELENS_CORS_ORIGINS" with
    | some text => s.withOrigins (commaItems text)
    | none => s
  .ok (s.withModel (s.model.overlay env))

/-! ### JSON -/

def toJson (s : GatewaySettings) : Json :=
  .object
    [("host", .text s.host), ("port", .ofNat s.port.toNat),
     ("cors_origins", Json.ofTexts s.origins), ("model", s.model.toJson)]

def shape : Shape GatewaySettings where
  name := "GatewayConfig"
  blank := default
  members :=
    [member "host" .defaulted .text fun h s => { s with host := h },
     member "port" .defaulted .port fun p s => { s with port := p.toUInt16 },
     member "cors_origins" .defaulted (.list .text) fun os s => { s with origins := os },
     member "model" .defaulted ModelSettings.shape.reader fun m s => { s with model := m }]

/-- The text of a settings file. The secret is not in it. -/
def fileText (s : GatewaySettings) : String :=
  Json.indented s.toJson

/-! ### TOML -/

/-- A setting under a key: its value, or the one that was there if the key is absent. -/
def settingOf (read : Toml → Option α) (table : Toml) (key : String) (old : α) : Option α :=
  match table.entry? key with
  | some v => read v
  | none => some old

def tomlText? : Toml → Option String
  | .text s => some s
  | _ => none

/-- A whole number from zero to the limit. -/
def tomlNatural? (limit : Nat) : Toml → Option Nat
  | .integer n => if 0 ≤ n ∧ n ≤ limit then some n.toNat else none
  | _ => none

def tomlFloat? : Toml → Option Float
  | .real x => some x
  | .integer n => some (Decimal.floatOfInt n)
  | _ => none

def tomlTexts? : Toml → Option (List String)
  | .list items => items.mapM tomlText?
  | _ => none

/-- The keys of the settings of the model, in order. -/
def modelKeys : List String :=
  ["api_key", "model", "base_url", "temperature", "max_output_tokens", "timeout_secs"]

/-- A table as it is, and a list as the table of its items under the keys in order. A moment counts
as a table without any of the keys. -/
def tomlRecord? (keys : List String) : Toml → Option Toml
  | .table entries => some (.table entries)
  | .list items => some (.table (keys.zip items))
  | .moment => some (.table [])
  | _ => none

def modelOfToml? (v : Toml) : Option ModelSettings := do
  let t ← tomlRecord? modelKeys v
  let old := ModelSettings.default
  let apiKey ← settingOf (fun v => (tomlText? v).map some) t "api_key" old.apiKey
  let model ← settingOf tomlText? t "model" old.model
  let baseUrl ← settingOf tomlText? t "base_url" old.baseUrl
  let temperature ← settingOf tomlFloat? t "temperature" old.temperature
  let tokens ←
    settingOf (tomlNatural? (UInt32.size - 1)) t "max_output_tokens" old.maxOutputTokens.toNat
  let timeout ← settingOf (tomlNatural? (UInt64.size - 1)) t "timeout_secs" old.timeoutSeconds.toNat
  some
    { apiKey, model, baseUrl, temperature
      maxOutputTokens := tokens.toUInt32
      timeoutSeconds := timeout.toUInt64 }

def ofToml? (t : Toml) : Option GatewaySettings := do
  let host ← settingOf tomlText? t "host" default.host
  let port ← settingOf (tomlNatural? (UInt16.size - 1)) t "port" default.port.toNat
  let origins ← settingOf tomlTexts? t "cors_origins" default.origins
  let model ← settingOf modelOfToml? t "model" default.model
  some { host, port := port.toUInt16, origins, model }

/-! ### Files -/

/-- A file is read as TOML by its extension, in any case. -/
def isTomlPath (path : String) : Bool :=
  (Path.extension? path).any fun ext => Text.lowerAscii ext = "toml"

/-- The settings in a file with this path and this text. Keys that are absent keep their
defaults. -/
def ofText (path text : String) : Except GatewayError GatewaySettings :=
  if isTomlPath path then
    match (Toml.ofText? text).bind ofToml? with
    | some s => .ok s
    | none => .error (.invalidConfig "TOML parse error")
  else
    (Json.readText shape.reader text).mapError GatewayError.ofRefusal

/-- The settings in a file, given its bytes or the reason why it cannot be read. -/
def ofFile (path : String) (content : Except String Json.Bytes) :
    Except GatewayError GatewaySettings := do
  let bytes ← content.mapError .io
  match Text.ofBytes? bytes with
  | some text => ofText path text
  | none => .error (.io GatewayError.notUtf8)

/-- Where a gateway with these settings listens. It is started only if it can. -/
def start (s : GatewaySettings) : Except GatewayError Net.SocketAddress :=
  s.address

end GatewaySettings

end CodeReview
