import CodeReview.Gateway.Settings
import CodeReview.Proofs.Decimal.Literal
import CodeReview.Proofs.Invocation
import CodeReview.Proofs.Provider.Settings
import CodeReview.Proofs.Text.Bytes
import CodeReview.Proofs.Text.Split
import CodeReview.Proofs.Text.Trim

/-!
The settings of the gateway field by field, and the settings that are saved to a file and read
again. A file may state any of them, in any JSON that can be read. Each variable of the environment
goes over one field, and only the port can be stated in a wrong way there. The secret is in no file
and in no part of a call but its header.
-/

namespace CodeReview

open Json (Shape member Readable Reads)
open Json.Shape (fills_member fills_member?)

/-! ### The environment -/

namespace Environment

/-- The port that the environment gives. -/
def port? (env : Environment) : Option UInt16 :=
  (env.given? "CODELENS_PORT").bind fun text =>
    (Decimal.parseNat? (UInt16.size - 1) (Text.trim text)).map Nat.toUInt16

/-- The text is given for the port, and it writes no number that a port can have. -/
def PortIsWrong (env : Environment) (text : String) : Prop :=
  env.given? "CODELENS_PORT" = some text ∧
    ∀ n, Decimal.Writes (Text.trim text) n → UInt16.size ≤ n

/-- A number that a port can have is read as this port. -/
theorem portOfNat?_eq_some_iff {text : String} {port : UInt16} :
    (Decimal.parseNat? (UInt16.size - 1) text).map Nat.toUInt16 = some port ↔
      Decimal.Writes text port.toNat := by
  rw [Option.map_eq_some_iff]
  constructor
  · rintro ⟨n, hn, rfl⟩
    obtain ⟨hwrites, hle⟩ := Decimal.parseNat?_eq_some_iff.mp hn
    have hlt : n < 2 ^ 16 := Nat.lt_succ_of_le hle
    rwa [Nat.toUInt16, UInt16.toNat_ofNat', Nat.mod_eq_of_lt hlt]
  · intro hwrites
    have hle : port.toNat ≤ UInt16.size - 1 := Nat.le_of_lt_succ port.toNat_lt
    exact ⟨port.toNat, Decimal.parseNat?_eq_some_iff.mpr ⟨hwrites, hle⟩, by simp⟩

theorem port?_eq_some_iff {env : Environment} {port : UInt16} :
    env.port? = some port ↔
      ∃ text, env.given? "CODELENS_PORT" = some text ∧
        Decimal.Writes (Text.trim text) port.toNat := by
  rw [port?, Option.bind_eq_some_iff]
  exact exists_congr fun text => and_congr_right fun _ => portOfNat?_eq_some_iff

theorem portIsWrong_iff {env : Environment} {text : String} :
    env.PortIsWrong text ↔
      env.given? "CODELENS_PORT" = some text ∧
        Decimal.parseNat? (UInt16.size - 1) (Text.trim text) = none := by
  refine and_congr_right fun _ => ?_
  rw [Option.eq_none_iff_forall_ne_some]
  refine forall_congr' fun n => ?_
  rw [Ne, Decimal.parseNat?_eq_some_iff, not_and]
  exact imp_congr_right fun _ => Nat.not_le.symm

end Environment

namespace GatewaySettings

/-- The items of a list are what shows something between the commas, trimmed. -/
theorem exists_commaItems_eq (text : String) :
    ∃ parts, ",".intercalate parts = text ∧ (∀ p ∈ parts, ',' ∉ p.toList) ∧
      commaItems text = (parts.map Text.trim).filter (· ≠ "") := by
  refine ⟨Text.split (· = ',') text, Text.intercalate_split ',' text,
    fun _ => Text.notMem_of_mem_split, ?_⟩
  rw [commaItems, ← List.filterMap_eq_filter, List.filterMap_map]
  refine List.filterMap_congr fun part _ => ?_
  simp only [Function.comp_apply, Text.nonBlank?_eq_guard]

/-- What the environment makes of the settings when it states no wrong port. -/
def merged (env : Environment) (s : GatewaySettings) : GatewaySettings where
  host := (env.given? "CODELENS_HOST").getD s.host
  port := env.port?.getD s.port
  origins := ((env.given? "CODELENS_CORS_ORIGINS").map commaItems).getD s.origins
  model := s.model.overlay env

theorem overlay_of_portIsWrong {env : Environment} {text : String} (h : env.PortIsWrong text)
    (s : GatewaySettings) :
    s.overlay env = .error (.invalidConfig ("CODELENS_PORT=" ++ text)) := by
  obtain ⟨hgiven, hparse⟩ := Environment.portIsWrong_iff.mp h
  rw [overlay, hgiven]
  simp only [hparse]
  rfl

theorem overlay_of_not_portIsWrong {env : Environment} (h : ∀ text, ¬ env.PortIsWrong text)
    (s : GatewaySettings) : s.overlay env = .ok (s.merged env) := by
  rw [overlay, merged, Environment.port?]
  cases hgiven : env.given? "CODELENS_PORT" with
  | none =>
      cases env.given? "CODELENS_HOST" <;> cases env.given? "CODELENS_CORS_ORIGINS" <;>
        simp only [bind, Except.bind, withHost, withOrigins, withModel, Option.bind_none,
          Option.getD_none, Option.getD_some, Option.map_none, Option.map_some]
  | some text =>
      cases hparse : Decimal.parseNat? (UInt16.size - 1) (Text.trim text) with
      | none => exact absurd (Environment.portIsWrong_iff.mpr ⟨hgiven, hparse⟩) (h text)
      | some n =>
          cases env.given? "CODELENS_HOST" <;> cases env.given? "CODELENS_CORS_ORIGINS" <;>
            simp only [bind, Except.bind, withHost, withPort, withOrigins, withModel,
              Option.bind_some, hparse, Option.getD_none, Option.getD_some, Option.map_none,
              Option.map_some]

theorem overlay_eq_ok_iff {env : Environment} {s r : GatewaySettings} :
    s.overlay env = .ok r ↔ (∀ text, ¬ env.PortIsWrong text) ∧ r = s.merged env := by
  constructor
  · intro h
    have hright : ∀ text, ¬ env.PortIsWrong text := by
      intro text hwrong
      rw [overlay_of_portIsWrong hwrong] at h
      cases h
    rw [overlay_of_not_portIsWrong hright] at h
    exact ⟨hright, (Except.ok.inj h).symm⟩
  · rintro ⟨hright, rfl⟩
    exact overlay_of_not_portIsWrong hright s

theorem merged_merged (env : Environment) (s : GatewaySettings) :
    (s.merged env).merged env = s.merged env := by
  simp only [merged, ModelSettings.overlay_overlay, getD_getD_self]

/-- An environment that went over the settings changes nothing when it goes over them again. -/
theorem overlay_overlay (env : Environment) (s : GatewaySettings) :
    (s.overlay env).bind (·.overlay env) = s.overlay env := by
  by_cases hwrong : ∃ text, env.PortIsWrong text
  · obtain ⟨text, hwrong⟩ := hwrong
    rw [overlay_of_portIsWrong hwrong]
    rfl
  · have hright := not_exists.mp hwrong
    rw [overlay_of_not_portIsWrong hright, Except.bind, overlay_of_not_portIsWrong hright,
      merged_merged]

/-! ### Fields and their variables -/

inductive Field where
  | host
  | port
  | origins
  | apiKey
  | model
  | baseUrl
  | temperature
  | maxOutputTokens
  | timeoutSeconds

namespace Field

/-- The variables that the field may come from. -/
def ownVariables : Field → List String
  | .host => ["CODELENS_HOST"]
  | .port => ["CODELENS_PORT"]
  | .origins => ["CODELENS_CORS_ORIGINS"]
  | .apiKey => ["GOOGLE_API_KEY", "GEMINI_API_KEY"]
  | .model => ["CODELENS_MODEL"]
  | .baseUrl => ["CODELENS_MODEL_BASE_URL"]
  | .temperature => []
  | .maxOutputTokens => []
  | .timeoutSeconds => []

/-- The field is the same in both settings. -/
def Same (s s' : GatewaySettings) : Field → Prop
  | .host => s.host = s'.host
  | .port => s.port = s'.port
  | .origins => s.origins = s'.origins
  | .apiKey => s.model.apiKey = s'.model.apiKey
  | .model => s.model.model = s'.model.model
  | .baseUrl => s.model.baseUrl = s'.model.baseUrl
  | .temperature => s.model.temperature = s'.model.temperature
  | .maxOutputTokens => s.model.maxOutputTokens = s'.model.maxOutputTokens
  | .timeoutSeconds => s.model.timeoutSeconds = s'.model.timeoutSeconds

/-- No variable but its own has an influence on a field. -/
theorem same_merged {f : Field} {env env' : Environment} (h : ∀ v ∈ f.ownVariables, env v = env' v)
    {s s' : GatewaySettings} (hs : f.Same s s') : f.Same (s.merged env) (s'.merged env') := by
  have hgiven (v : String) (hv : v ∈ f.ownVariables) : env.given? v = env'.given? v :=
    Environment.given?_congr (h v hv)
  cases f <;> simp only [Same, ownVariables, merged, ModelSettings.overlay_eq, Environment.port?,
    List.forall_mem_cons] at hs hgiven ⊢ <;> simp only [hs, hgiven]

end Field

/-! ### Files -/

/-- The settings that a file states. Each of them may be absent. -/
structure Stated where
  host : Option String := none
  port : Option UInt16 := none
  origins : Option (List String) := none
  model : ModelSettings.Stated := {}

namespace Stated

/-- What is not stated is as before. -/
def onto (base : GatewaySettings) (s : Stated) : GatewaySettings where
  host := s.host.getD base.host
  port := s.port.getD base.port
  origins := s.origins.getD base.origins
  model := s.model.onto base.model

/-- All settings but for the secret. -/
def ofSettings (s : GatewaySettings) : Stated where
  host := s.host
  port := s.port
  origins := s.origins
  model := .ofSettings s.model

def shape : Shape Stated where
  name := "GatewayConfig"
  blank := {}
  members :=
    [member "host" .defaulted .text fun h s => { s with host := some h },
     member "port" .defaulted .port fun p s => { s with port := some p.toUInt16 },
     member "cors_origins" .defaulted (.list .text) fun os s => { s with origins := some os },
     member "model" .defaulted ModelSettings.Stated.shape.reader fun m s => { s with model := m }]

def toJson (s : Stated) : Json :=
  .object
    (Json.member? "host" (s.host.map .text) ++
     Json.member? "port" (s.port.map fun p => .ofNat p.toNat) ++
     Json.member? "cors_origins" (s.origins.map .ofTexts) ++ [("model", s.model.toJson)])

section Json

variable {P : Json.Number → Prop}

theorem readable {depth : Nat} (hword : ∀ n : Nat, n < 2 ^ 64 → P (.integer n)) {s : Stated}
    (htemperature : ∀ t ∈ s.model.temperature, P (.real t)) :
    Readable P (depth + 2) s.toJson := by
  have origins (os : List String) : Readable P (depth + 1) (.ofTexts os) :=
    Json.readable_list_iff.mpr (List.forall_mem_map.mpr fun s _ => Json.readable_text s)
  rw [toJson, Json.readable_object_iff]
  constructor
  · obtain ⟨host, port, origins, model⟩ := s
    cases host <;> cases port <;> cases origins <;> simp [Json.member?]
  · simp only [List.forall_mem_append, Json.forall_mem_member?, List.forall_mem_singleton]
    exact ⟨⟨⟨fun h _ => Json.readable_text h,
      fun p _ => Json.readable_number (hword _ (Nat.lt_trans p.toNat_lt (by decide)))⟩,
      fun os _ => origins os⟩, ModelSettings.Stated.readable hword htemperature⟩

theorem reads (hkept : ∀ n, P n → n.Kept) (s : Stated) : Reads P shape.reader s.toJson s := by
  have port (p : UInt16) : Reads P .port (.ofNat p.toNat) p.toNat :=
    Json.reads_natural hkept _ (Nat.le_of_lt_succ p.toNat_lt)
  have origins (os : List String) : Reads P (.list .text) (.ofTexts os) os :=
    Json.reads_list (List.forall₂_map_left_iff.mpr
      (List.forall₂_same.mpr fun s _ => Json.reads_text s))
  refine Json.Shape.reads_record (List.rel_append (List.rel_append (List.rel_append
    (fills_member? fun _ => fills_member rfl (Json.reads_text _))
    (fills_member? fun _ => fills_member rfl (port _)))
    (fills_member? fun _ => fills_member rfl (origins _)))
    (.cons (fills_member rfl (s.model.reads hkept)) .nil)) ?_ ?_
  · simp [Json.Shape.Complete, shape, member]
  · obtain ⟨host, port, origins, model⟩ := s
    cases host <;> cases port <;> cases origins <;> simp [shape]

/-- What is stated is read from every encoding of it. -/
theorem readText_encoded {s : Stated} (h : ∀ t ∈ s.model.temperature, Json.Survives t) {t : String}
    (ht : Json.Encodes Json.Number.Kept t s.toJson) : Json.readText shape.reader t = .ok s :=
  (s.reads fun _ => id).readText ht
    (readable Json.Number.kept_word fun t ht => Json.Number.kept_real (h t ht))

end Json

end Stated

/-- The settings are read from a file as what the file states, over the defaults. -/
theorem reader_eq : shape.reader = Stated.shape.reader.map (·.onto default) := by
  have hmodel : member "model" .defaulted ModelSettings.shape.reader
        (fun m (s : GatewaySettings) => { s with model := m }) =
      member "model" .defaulted ModelSettings.Stated.shape.reader
        fun m s => { s with model := m.onto .default } := by
    rw [member, ModelSettings.reader_eq, Json.Reader.map_map]
    rfl
  refine Json.Shape.reader_map ?_ rfl rfl
  rw [shape, hmodel]
  exact .cons (.member fun _ _ => rfl) <| .cons (.member fun _ _ => rfl) <|
    .cons (.member fun _ _ => rfl) <| .cons (.member fun _ _ => rfl) .nil

theorem isTomlPath_eq_false_iff {path : String} :
    isTomlPath path = false ↔
      ∀ ext, Path.extension? path = some ext → ¬ Invocation.SameButCase ext "toml" := by
  have hlower : Text.lowerAscii "toml" = "toml" := by decide +kernel
  rw [isTomlPath, Option.any_eq_false]
  simp [Invocation.SameButCase, hlower]

/-- A file that is not TOML gives what it states, over the defaults. -/
theorem ofText_json {path : String} (hpath : isTomlPath path = false) (text : String) :
    ofText path text =
      ((Json.readText Stated.shape.reader text).map (·.onto default)).mapError
        GatewayError.ofRefusal := by
  rw [ofText, hpath, reader_eq, Json.readText_map]
  rfl

theorem ofFile_of_text {path text : String} {bytes : Json.Bytes}
    (h : Text.ofBytes? bytes = some text) : ofFile path (.ok bytes) = ofText path text := by
  simp only [ofFile, Except.mapError, bind, Except.bind, h]

/-- A file that gives settings can be read, and is text. -/
theorem ofFile_ok {path : String} {content : Except String Json.Bytes} {s : GatewaySettings}
    (h : ofFile path content = .ok s) :
    ∃ bytes text, content = .ok bytes ∧ Text.ofBytes? bytes = some text ∧
      ofText path text = .ok s := by
  cases content with
  | error e => cases h
  | ok bytes =>
      cases htext : Text.ofBytes? bytes with
      | none =>
          simp only [ofFile, Except.mapError, bind, Except.bind, htext, reduceCtorEq] at h
      | some text =>
          rw [ofFile_of_text htext] at h
          exact ⟨bytes, text, rfl, htext, h⟩

/-- A file that states these settings gives them. -/
theorem ofFile_stated {path : String} (hpath : isTomlPath path = false) {s : Stated}
    (htemperature : ∀ t ∈ s.model.temperature, Json.Survives t) {text : String}
    (ht : Json.Encodes Json.Number.Kept text s.toJson) :
    ofFile path (.ok (Text.bytes text)) = .ok (s.onto default) := by
  rw [ofFile_of_text (Text.ofBytes?_bytes text), ofText_json hpath,
    Stated.readText_encoded htemperature ht]
  rfl

/-! ### Saved settings and calls -/

/-- The settings but for the secret. -/
def withoutSecret (s : GatewaySettings) : GatewaySettings :=
  { s with model := { s.model with apiKey := none } }

theorem toJson_eq (s : GatewaySettings) : s.toJson = (Stated.ofSettings s).toJson :=
  rfl

theorem onto_ofSettings (s : GatewaySettings) :
    (Stated.ofSettings s).onto default = s.withoutSecret :=
  rfl

theorem encodes_fileText {s : GatewaySettings} (h : Json.Survives s.model.temperature) :
    Json.Encodes Json.Number.Kept s.fileText (Stated.ofSettings s).toJson := by
  have htemperature :
      ∀ t ∈ (Stated.ofSettings s).model.temperature, Json.Number.Kept (.real t) := by
    rintro _ ⟨⟩
    exact Json.Number.kept_real h
  have hreadable : Readable Json.Number.Kept 2 (Stated.ofSettings s).toJson :=
    Stated.readable Json.Number.kept_word htemperature
  rw [fileText, toJson_eq]
  exact Json.encodes_indented hreadable

theorem eq_of_withoutSecret {s s' : GatewaySettings} (h : s'.withoutSecret = s.withoutSecret) :
    s' = { s with model := { s.model with apiKey := s'.model.apiKey } } := by
  obtain ⟨host, port, origins, apiKey, model, baseUrl, temperature, tokens, timeout⟩ := s
  obtain ⟨host', port', origins', apiKey', model', baseUrl', temperature', tokens', timeout'⟩ := s'
  simpa [withoutSecret] using h

theorem ofFile_fileText {s : GatewaySettings} (h : Json.Survives s.model.temperature)
    {path : String} (hpath : isTomlPath path = false) :
    ofFile path (.ok (Text.bytes s.fileText)) = .ok s.withoutSecret := by
  have htemperature : ∀ t ∈ (Stated.ofSettings s).model.temperature, Json.Survives t := by
    rintro _ ⟨⟩
    exact h
  rw [ofFile_stated hpath htemperature (encodes_fileText h), onto_ofSettings]

/-- Saved settings come back without the secret and otherwise as they were, from every file that is
not called TOML. Of two settings with different secrets the same file is saved, and the same is sent
to the same address, but for the header with the secret. -/
theorem saved_and_sent (s : GatewaySettings) :
    (Json.Survives s.model.temperature →
      ∀ path, (∀ ext, Path.extension? path = some ext → ¬ Invocation.SameButCase ext "toml") →
        ofFile path (.ok (Text.bytes s.fileText)) = .ok s.withoutSecret) ∧
    ∀ s' : GatewaySettings, s'.withoutSecret = s.withoutSecret →
      s'.fileText = s.fileText ∧
      Client.endpoint s'.model = Client.endpoint s.model ∧
      ∀ prompt,
        (Client.call s'.model prompt).body = (Client.call s.model prompt).body ∧
        ∀ network, ∀ call ∈ (Client.ask s'.model prompt).questions network,
          call = { Client.call s.model prompt with
            apiKey := s'.model.apiKey.map Net.sentValue } := by
  refine ⟨fun h path hpath => ofFile_fileText h (isTomlPath_eq_false_iff.mpr hpath),
    fun s' hsame => ?_⟩
  rw [eq_of_withoutSecret hsame]
  refine ⟨rfl, rfl, fun prompt => ⟨rfl, fun network call hcall => ?_⟩⟩
  rw [Client.ask] at hcall
  split at hcall
  · exact List.mem_singleton.mp hcall
  · cases hcall

theorem saved_and_sent_half :
    let s : GatewaySettings :=
      { default with
        host := "\u0000\""
        model := { ModelSettings.default with apiKey := some "first", temperature := 0.5 } }
    let s' : GatewaySettings := { s with model := { s.model with apiKey := some "second" } }
    Json.Survives s'.model.temperature ∧ s'.withoutSecret = s.withoutSecret ∧
      ofFile "saved.JSON" (.ok (Text.bytes s'.fileText)) = .ok s.withoutSecret ∧
      s'.fileText = s.fileText ∧
      (Client.call s'.model "p").body = (Client.call s.model "p").body := by
  intro s s'
  have hpath : isTomlPath "saved.JSON" = false := by decide +kernel
  obtain ⟨hfile, -⟩ := saved_and_sent s'
  obtain ⟨-, hsent⟩ := saved_and_sent s
  obtain ⟨htext, -, hcall⟩ := hsent s' rfl
  exact ⟨Json.survives_half, rfl,
    hfile Json.survives_half "saved.JSON" (isTomlPath_eq_false_iff.mp hpath), htext, (hcall "p").1⟩

/-! ### The root of the addresses -/

theorem endsInSlash_iff_endpoint {s : ModelSettings} :
    ModelSettings.EndsInSlash s.baseUrl ↔
      ∃ root, Client.endpoint s = root ++ "//models/" ++ s.model ++ ":generateContent" := by
  have hslash (root : String) : root ++ "//models/" = root ++ "/" ++ "/models/" := by
    rw [String.append_assoc]
    rfl
  have hends : ModelSettings.EndsInSlash s.baseUrl ↔ ∃ root, s.baseUrl = root ++ "/" := by
    rw [ModelSettings.EndsInSlash, List.getLast?_eq_some_iff]
    constructor
    · rintro ⟨cs, hcs⟩
      exact ⟨String.ofList cs, String.toList_injective (by simpa using hcs)⟩
    · rintro ⟨root, hroot⟩
      exact ⟨root.toList, by rw [hroot, String.toList_append]; rfl⟩
  rw [hends]
  refine exists_congr fun root => ?_
  rw [hslash, Client.endpoint]
  simp only [String.append_left_inj]

/-- The root ends in a slash exactly when it did so in the file that it comes from and nothing has
set it since; the address then has two slashes after it. The default root has no slash at its end,
and a file can state any root. -/
theorem endsInSlash_iff_of_file (cs : List ModelSettings.Change) (s : ModelSettings) {path : String}
    (hpath : isTomlPath path = false) :
    let changed : ModelSettings := ModelSettings.changed cs s
    ¬ ModelSettings.EndsInSlash (ModelSettings.changed cs .default).baseUrl ∧
    (∀ url,
      ofFile path
          (.ok (Text.bytes (Json.compact (Stated.toJson { model := { baseUrl := some url } })))) =
        .ok { default with model := { ModelSettings.default with baseUrl := url } }) ∧
    (ModelSettings.EndsInSlash changed.baseUrl ↔
      (∀ c ∈ cs, c.root? = none) ∧ ModelSettings.EndsInSlash s.baseUrl) ∧
    (ModelSettings.EndsInSlash changed.baseUrl ↔
      ∃ root, Client.endpoint changed =
        root ++ "//models/" ++ changed.model ++ ":generateContent") := by
  have hdefault : ¬ ModelSettings.EndsInSlash ModelSettings.default.baseUrl := by decide +kernel
  refine ⟨fun h => hdefault (ModelSettings.endsInSlash_changed_iff.mp h).2, fun url => ?_,
    ModelSettings.endsInSlash_changed_iff, endsInSlash_iff_endpoint⟩
  let stated : Stated := { model := { baseUrl := some url } }
  have hreadable : Readable Json.Number.Kept 2 stated.toJson :=
    Stated.readable Json.Number.kept_word (by simp [stated])
  exact ofFile_stated hpath (by simp [stated]) (Json.encodes_compact hreadable)

theorem endsInSlash_iff_of_file_slash :
    let s : ModelSettings := { ModelSettings.default with baseUrl := "http://b/" }
    isTomlPath "c.json" = false ∧
      ofFile "c.json"
          (.ok (Text.bytes "\x7b\"model\":\x7b\"base_url\":\"http://b/\"\x7d\x7d")) =
        .ok { default with model := s } ∧
      ModelSettings.EndsInSlash s.baseUrl ∧
      Client.endpoint s = "http://b//models/gemini-pro:generateContent" := by
  intro s
  have hpath : isTomlPath "c.json" = false := by decide +kernel
  have htext : Json.compact (Stated.toJson { model := { baseUrl := some "http://b/" } }) =
      "\x7b\"model\":\x7b\"base_url\":\"http://b/\"\x7d\x7d" := by
    decide +kernel
  obtain ⟨-, hfile, hends, -⟩ := endsInSlash_iff_of_file [] s hpath
  rw [← htext]
  exact ⟨hpath, hfile "http://b/", hends.mpr ⟨List.forall_mem_nil _, by decide +kernel⟩,
    by decide +kernel⟩

end GatewaySettings

end CodeReview
