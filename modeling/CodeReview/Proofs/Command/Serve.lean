import CodeReview.Command.Serve
import CodeReview.Proofs.Command.Arguments
import CodeReview.Proofs.Command.World

/-!
The settings with which the gateway starts. Each field comes from the highest layer that gives it:
the command line, the environment, the settings file, and the defaults.
-/

namespace CodeReview

open GatewaySettings (Field Stated commaItems isTomlPath)
open ModelSettings (EndsInSlash withoutSlashes)

/-! ### Texts of variables -/

/-- How the values of variables are understood. A blank one counts as absent, a port is trimmed, a
list has items between commas, and an address loses the slashes at its end. -/
structure Environment.Understood (env : Environment) : Prop where
  given : ∀ name value, env.given? name = some value ↔
    env name = some value ∧ ∃ c ∈ value.toList, Text.isBlank c = false
  port : ∀ port, env.port? = some port ↔
    ∃ text, env.given? "CODELENS_PORT" = some text ∧ Decimal.Writes (Text.trim text) port.toNat
  items : ∀ text, ∃ parts, ",".intercalate parts = text ∧ (∀ p ∈ parts, ',' ∉ p.toList) ∧
    commaItems text = (parts.map Text.trim).filter (· ≠ "")
  root : ∀ url, ¬ EndsInSlash (withoutSlashes url) ∧
    ∃ n, url = withoutSlashes url ++ String.ofList (List.replicate n '/')

theorem Environment.understood (env : Environment) : env.Understood where
  given name value := by
    rw [given?_eq_some_iff, ← Bool.not_eq_true, Text.allBlank_iff]
    simp
  port _ := port?_eq_some_iff
  items := GatewaySettings.exists_commaItems_eq
  root url := ⟨ModelSettings.not_endsInSlash_withoutSlashes url,
    ModelSettings.exists_withoutSlashes_append url⟩

/-! ### Layers -/

namespace Command

open Arguments (Given)

/-- The text writes the port: digits after an optional plus sign, or zeros after a minus sign. -/
def WritesPort (text : String) (port : UInt16) : Prop :=
  Decimal.Writes text port.toNat ∨
    port = 0 ∧ ∃ zeros, zeros ≠ [] ∧ (∀ c ∈ zeros, c = '0') ∧ text.toList = '-' :: zeros

/-- Each field comes from the highest layer that gives it. -/
structure Layered (g : Given) (env : Environment) (stated : Stated) (s : GatewaySettings) :
    Prop where
  host : s.host =
    (((g.value? "host").or (env.given? "CODELENS_HOST")).or stated.host).getD "127.0.0.1"
  port : s.port = ((((g.value? "port").bind portOf?).or env.port?).or stated.port).getD 8080
  origins : s.origins =
    (((env.given? "CODELENS_CORS_ORIGINS").map commaItems).or stated.origins).getD
      ["http://localhost:3000"]
  apiKey : s.model.apiKey =
    ((env.given? "GOOGLE_API_KEY").or (env.given? "GEMINI_API_KEY")).or stated.model.apiKey.join
  model : s.model.model =
    ((env.given? "CODELENS_MODEL").or stated.model.model).getD "gemini-pro"
  baseUrl : s.model.baseUrl =
    (((env.given? "CODELENS_MODEL_BASE_URL").map withoutSlashes).or stated.model.baseUrl).getD
      "https://generativelanguage.googleapis.com/v1beta"
  temperature : s.model.temperature = stated.model.temperature.getD 0.1
  maxOutputTokens : s.model.maxOutputTokens = stated.model.maxOutputTokens.getD 2000
  timeoutSeconds : s.model.timeoutSeconds = stated.model.timeoutSeconds.getD 30

theorem withSwitches_eq (g : Given) (s : GatewaySettings) :
    withSwitches g s =
      { s with
        host := (g.value? "host").getD s.host
        port := ((g.value? "port").bind portOf?).getD s.port } := by
  rw [withSwitches]
  cases g.value? "host" <;> cases (g.value? "port").bind portOf? <;> rfl

/-- Zeros are a number, which is zero. -/
theorem writes_zeros_iff {cs : List Char} (hzeros : ∀ c ∈ cs, c = '0') {n : Nat} :
    Decimal.Writes (String.ofList cs) n ↔ cs ≠ [] ∧ n = 0 := by
  have hvalue : Decimal.valueOf cs = 0 := by
    rw [List.eq_replicate_of_mem hzeros]
    induction cs.length with
    | zero => rfl
    | succ k ih => exact ih
  rw [Decimal.Writes, String.toList_ofList]
  constructor
  · rintro ⟨sign, ds, rfl | rfl, rfl, hne, -, rfl⟩
    · exact ⟨hne, hvalue⟩
    · exact absurd (hzeros '+' List.mem_cons_self) (by decide)
  · rintro ⟨hne, rfl⟩
    refine ⟨[], cs, .inl rfl, rfl, hne, fun c hc => ?_, hvalue.symm⟩
    rw [hzeros c hc]
    decide

/-- No sign but a plus sign stands before the digits of a number. -/
theorem not_writes_of_minus {text : String} {cs : List Char} (h : text.toList = '-' :: cs)
    (n : Nat) : ¬ Decimal.Writes text n := by
  rintro ⟨sign, ds, rfl | rfl, htext, hne, hdigits, -⟩
  · rw [h, List.nil_append] at htext
    exact absurd (hdigits '-' (htext ▸ List.mem_cons_self)) (by decide)
  · rw [h] at htext
    exact absurd (List.cons.inj htext).1 (by decide)

theorem portOf?_eq_some_iff {text : String} {port : UInt16} :
    portOf? text = some port ↔ WritesPort text port := by
  rw [portOf?, WritesPort, Environment.portOfNat?_eq_some_iff]
  split
  · rename_i ds htext
    rw [or_iff_right (not_writes_of_minus htext _)]
    have hzero : port.toNat = 0 ↔ port = 0 := by rw [← UInt16.toNat_inj, UInt16.toNat_zero]
    by_cases hall : ds.all (· = '0') = true
    · have hzeros : ∀ c ∈ ds, c = '0' := fun c hc =>
        of_decide_eq_true (List.all_eq_true.mp hall c hc)
      rw [if_pos hall, writes_zeros_iff hzeros, hzero, and_comm]
      refine and_congr_right fun _ => ⟨fun hne => ⟨ds, hne, hzeros, htext⟩, ?_⟩
      rintro ⟨zeros, hne, -, h⟩
      rw [htext] at h
      cases h
      exact hne
    · rw [if_neg hall]
      refine iff_of_false ?_ ?_
      · exact fun h => ((writes_zeros_iff (List.forall_mem_nil (· = '0'))).mp h).1 rfl
      · rintro ⟨-, zeros, -, hzeros, h⟩
        rw [htext] at h
        cases h
        exact hall (List.all_eq_true.mpr fun c hc => decide_eq_true (hzeros c hc))
  · rename_i hplain
    rw [or_iff_left]
    rintro ⟨-, zeros, -, -, htext⟩
    exact hplain zeros htext

/-- A port on the command line is one. -/
theorem exists_portOf?_of_read {args : List String} {g : Given}
    (hread : Arguments.read serveGrammar args = .ok g) {text : String}
    (h : g.value? "port" = some text) : ∃ port, portOf? text = some port := by
  obtain ⟨s, hs, hlong, haccepts⟩ := (Arguments.conforms_read hread).accepts h
  simp only [serveGrammar, List.mem_cons, List.not_mem_nil, or_false] at hs
  rcases hs with rfl | rfl | rfl | rfl | rfl | rfl
  · simp [configSwitch] at hlong
  · exact Option.isSome_iff_exists.mp haccepts
  · simp at hlong
  · simp [verboseSwitch] at hlong
  · simp [helpSwitch] at hlong
  · simp [versionSwitch] at hlong

theorem layered_merged (g : Given) (env : Environment) (stated : Stated) :
    Layered g env stated (withSwitches g ((stated.onto .default).merged env)) := by
  have hjoin : stated.model.apiKey.join = stated.model.apiKey.getD none := by
    cases stated.model.apiKey <;> rfl
  rw [withSwitches_eq]
  constructor <;>
    simp only [GatewaySettings.merged, Stated.onto, ModelSettings.overlay_eq,
      ModelSettings.Stated.onto, Option.getD_or, hjoin] <;> rfl

theorem same_withSwitches {f : Field} {s s' : GatewaySettings} (h : f.Same s s') (g : Given) :
    f.Same (withSwitches g s) (withSwitches g s') := by
  rw [withSwitches_eq, withSwitches_eq]
  cases f with
  | host => exact congrArg (g.value? "host").getD h
  | port => exact congrArg ((g.value? "port").bind portOf?).getD h
  | origins | apiKey | model | baseUrl | temperature | maxOutputTokens | timeoutSeconds => exact h

section Start

variable {w : World} {g : Given} {stated : Stated}

theorem serveSettings_eq_error_iff (h : w.States (g.value? "config") stated) {e : GatewayError} :
    serveSettings w g = .error e ↔
      ∃ text, w.environment.PortIsWrong text ∧ e = .invalidConfig ("CODELENS_PORT=" ++ text) := by
  rw [serveSettings, World.settings_of_states h]
  by_cases hwrong : ∃ text, w.environment.PortIsWrong text
  · obtain ⟨text, hwrong⟩ := hwrong
    rw [GatewaySettings.overlay_of_portIsWrong hwrong]
    constructor
    · rintro ⟨⟩
      exact ⟨text, hwrong, rfl⟩
    · rintro ⟨text', hwrong', rfl⟩
      rw [Option.some.inj (hwrong.1.symm.trans hwrong'.1)]
      rfl
  · rw [GatewaySettings.overlay_of_not_portIsWrong (not_exists.mp hwrong)]
    constructor
    · rintro ⟨⟩
    · rintro ⟨text, htext, -⟩
      exact absurd ⟨text, htext⟩ hwrong

theorem serveSettings_eq_ok (h : w.States (g.value? "config") stated) {s : GatewaySettings}
    (hs : serveSettings w g = .ok s) :
    s = withSwitches g ((stated.onto .default).merged w.environment) := by
  rw [serveSettings, World.settings_of_states h] at hs
  cases hsettings : (stated.onto .default).overlay w.environment with
  | error e =>
      rw [hsettings] at hs
      cases hs
  | ok r =>
      rw [hsettings] at hs
      rw [← Except.ok.inj hs, (GatewaySettings.overlay_eq_ok_iff.mp hsettings).2]

end Start

/-- The settings with which the gateway starts, whatever JSON file is read, whatever the variables
are and whatever switches are given. They fail exactly for a wrong port in the environment. Without
that, each field comes from the highest layer that gives it, where the port of the command line is
the number that is written there, and no variable has an influence on a field but its own. The
environment changes nothing when it goes over settings a second time. -/
theorem serveSettings_layers {w : World} {g : Given}
    (hread : Arguments.read serveGrammar w.args = .ok g)
    (hfile : ∀ path, g.value? "config" = some path → isTomlPath path = false ∧
      ∃ s, GatewaySettings.ofFile path (w.file path) = .ok s) :
    w.environment.Understood ∧
    (∀ text port, portOf? text = some port ↔ WritesPort text port) ∧
    (∀ text, g.value? "port" = some text → ∃ port, portOf? text = some port) ∧
    (∃ stated, w.States (g.value? "config") stated ∧
      ∀ s, serveSettings w g = .ok s → Layered g w.environment stated s) ∧
    (∀ e, serveSettings w g = .error e ↔
      ∃ text, w.environment.PortIsWrong text ∧ e = .invalidConfig ("CODELENS_PORT=" ++ text)) ∧
    (∀ (w' : World) (f : Field), w'.file = w.file →
      (∀ v ∈ f.ownVariables, w.environment v = w'.environment v) →
      ∀ s s', serveSettings w g = .ok s → serveSettings w' g = .ok s' → f.Same s s') ∧
    ∀ env (s : GatewaySettings), (s.overlay env).bind (·.overlay env) = s.overlay env := by
  have hstates : ∃ stated, w.States (g.value? "config") stated := by
    cases hconfig : g.value? "config" with
    | none => exact ⟨{}, .nothing⟩
    | some path =>
        obtain ⟨hpath, s, hs⟩ := hfile path hconfig
        exact World.exists_states hpath hs
  obtain ⟨stated, hstated⟩ := hstates
  refine ⟨w.environment.understood, fun _ _ => portOf?_eq_some_iff,
    fun _ => exists_portOf?_of_read hread,
    ⟨stated, hstated, fun s hs => ?_⟩, fun _ => serveSettings_eq_error_iff hstated,
    fun w' f hsame hvariables s s' hs hs' => ?_, GatewaySettings.overlay_overlay⟩
  · rw [serveSettings_eq_ok hstated hs]
    exact layered_merged g w.environment stated
  · have hstated' : w'.States (g.value? "config") stated := hstated.of_file_eq hsame
    rw [serveSettings_eq_ok hstated hs, serveSettings_eq_ok hstated' hs']
    have hbase : f.Same (stated.onto .default) (stated.onto .default) := by cases f <;> rfl
    exact same_withSwitches (f.same_merged hvariables hbase) g

/-- A port on the command line goes over the ports of the environment and of the file, with and
without a sign. -/
theorem serveSettings_layers_port :
    let text := "\x7b\"host\":\"h\",\"port\":1,\"model\":\x7b\"model\":\"m\"\x7d\x7d"
    let w (port : String) : World :=
      { args := ["--config", "c.json", port]
        «variables» :=
          [("CODELENS_HOST", " "), ("CODELENS_PORT", " +8081 "),
           ("CODELENS_CORS_ORIGINS", " a,,* "), ("GEMINI_API_KEY", "k"),
           ("CODELENS_MODEL_BASE_URL", "http://m//")]
        file := fun _ => .ok (Text.bytes text)
        input := [] }
    let g (port : String) : Given := ⟨[("config", "c.json"), ("port", port)], [], none⟩
    Arguments.read serveGrammar (w "-p9000").args = .ok (g "9000") ∧
      Arguments.read serveGrammar (w "--port=+070").args = .ok (g "+070") ∧
      (∀ port path, (g port).value? "config" = some path → isTomlPath path = false ∧
        ∃ s, GatewaySettings.ofFile path ((w port).file path) = .ok s) ∧
      (∃ s, serveSettings (w "-p9000") (g "9000") = .ok s ∧ s.host = "h" ∧ s.port = 9000 ∧
        s.origins = ["a", "*"] ∧ s.model.apiKey = some "k" ∧ s.model.model = "m" ∧
        s.model.baseUrl = "http://m") ∧
      ∃ s, serveSettings (w "--port=+070") (g "+070") = .ok s ∧ s.port = 70 := by
  intro text w g
  let known : Stated := { host := some "h", port := some 1, model := { model := some "m" } }
  have hread : Arguments.read serveGrammar (w "-p9000").args = .ok (g "9000") := by decide +kernel
  have hread' : Arguments.read serveGrammar (w "--port=+070").args = .ok (g "+070") := by
    decide +kernel
  have hpath : isTomlPath "c.json" = false := by decide +kernel
  have htext : Json.compact known.toJson = text := by decide +kernel
  have hreadable : Json.Readable Json.Number.Kept 2 known.toJson :=
    Stated.readable Json.Number.kept_word (by simp [known])
  have hencodes : Json.Encodes Json.Number.Kept text known.toJson :=
    htext ▸ Json.encodes_compact hreadable
  have hreads : Json.readText Stated.shape.reader text = .ok known :=
    Stated.readText_encoded (by simp [known]) hencodes
  have hknown (port : String) : (w port).States ((g port).value? "config") known :=
    .file hpath (World.text_eq_ok_iff.mpr rfl) hreads
  have hfile (port path : String) : (g port).value? "config" = some path →
      isTomlPath path = false ∧
        ∃ s, GatewaySettings.ofFile path ((w port).file path) = .ok s := by
    rintro ⟨⟩
    exact ⟨hpath, _, GatewaySettings.ofFile_stated hpath (by simp [known]) hencodes⟩
  have hport (port : String) : (w port).environment.given? "CODELENS_PORT" = some " +8081 " := by
    have hgiven : (w "").environment.given? "CODELENS_PORT" = some " +8081 " := by decide +kernel
    exact hgiven
  have hparse : Decimal.parseNat? 65535 (Text.trim " +8081 ") = some 8081 := by decide +kernel
  obtain ⟨hwrites, -⟩ := Decimal.parseNat?_eq_some_iff.mp hparse
  have hright (port text' : String) : ¬ (w port).environment.PortIsWrong text' := by
    rintro ⟨hgiven, hwrong⟩
    rw [hport] at hgiven
    cases hgiven
    exact absurd (hwrong 8081 hwrites) (by decide)
  refine ⟨hread, hread', hfile, ?plain, ?signed⟩
  case plain =>
    obtain ⟨-, -, -, ⟨stated, hstated, hlayered⟩, hfails, -⟩ :=
      serveSettings_layers hread (hfile "9000")
    cases hs : serveSettings (w "-p9000") (g "9000") with
    | error e =>
        obtain ⟨text', hwrong, -⟩ := (hfails e).mp hs
        exact absurd hwrong (hright _ text')
    | ok s =>
        obtain rfl := hstated.unique (hknown _)
        have h := hlayered s hs
        exact ⟨s, rfl, h.host.trans (by decide +kernel), h.port.trans (by decide +kernel),
          h.origins.trans (by decide +kernel), h.apiKey.trans (by decide +kernel),
          h.model.trans (by decide +kernel), h.baseUrl.trans (by decide +kernel)⟩
  case signed =>
    obtain ⟨-, hwritten, -, ⟨stated, -, hlayered⟩, hfails, -⟩ :=
      serveSettings_layers hread' (hfile "+070")
    cases hs : serveSettings (w "--port=+070") (g "+070") with
    | error e =>
        obtain ⟨text', hwrong, -⟩ := (hfails e).mp hs
        exact absurd hwrong (hright _ text')
    | ok s =>
        have hdigits : ∀ c ∈ ['0', '7', '0'], Decimal.isDigit c = true :=
          List.all_eq_true.mp (by decide)
        have hseventy : portOf? "+070" = some 70 := (hwritten "+070" 70).mpr
          (.inl ⟨['+'], ['0', '7', '0'], .inr rfl, by decide, nofun, hdigits, by decide⟩)
        refine ⟨s, rfl, (hlayered s hs).port.trans ?_⟩
        have hgiven : ((g "+070").value? "port").bind portOf? = some 70 := hseventy
        rw [hgiven]
        rfl

end Command

end CodeReview
