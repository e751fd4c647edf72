import CodeReview.Command.World
import CodeReview.Proofs.Gateway.Settings

/-!
The files that a program reads: their texts, what a settings file states, and the settings that come
of it.
-/

namespace CodeReview

open GatewaySettings (Stated isTomlPath)

/-- The file can be read, and holds this text. -/
def World.Holds (w : World) (path text : String) : Prop :=
  w.file path = .ok (Text.bytes text)

namespace GatewaySettings

/-- The path has the extension of TOML, in any case. -/
def SaysToml (path : String) : Prop :=
  ∃ ext, Path.extension? path = some ext ∧ Invocation.SameButCase ext "toml"

/-- The text of a file with this path stands for the settings: as TOML if the path says so, and as
JSON if it does not. -/
inductive Decodes (path text : String) : GatewaySettings → Prop where
  | json {s : GatewaySettings} (name : ¬ SaysToml path)
    (reads : Json.readText shape.reader text = .ok s) : Decodes path text s
  | toml {t : Toml} {s : GatewaySettings} (name : SaysToml path)
    (parses : Toml.ofText? text = some t) (gives : ofToml? t = some s) : Decodes path text s

theorem isTomlPath_iff {path : String} : isTomlPath path = true ↔ SaysToml path := by
  rw [← Bool.not_eq_false, isTomlPath_eq_false_iff, SaysToml]
  simp

theorem ofText_eq_ok_iff {path text : String} {s : GatewaySettings} :
    ofText path text = .ok s ↔ Decodes path text s := by
  rw [ofText]
  split
  · rename_i hpath
    have hname := isTomlPath_iff.mp hpath
    constructor
    · intro h
      split at h
      · rename_i found hfound
        cases h
        obtain ⟨t, hparses, hgives⟩ := Option.bind_eq_some_iff.mp hfound
        exact .toml hname hparses hgives
      · cases h
    · rintro (⟨hplain, -⟩ | ⟨-, hparses, hgives⟩)
      · exact absurd hname hplain
      · rw [hparses, Option.bind_some, hgives]
  · rename_i hpath
    have hname := mt isTomlPath_iff.mpr hpath
    constructor
    · intro h
      cases hread : Json.readText shape.reader text with
      | error refusal =>
          rw [hread] at h
          cases h
      | ok found =>
          rw [hread] at h
          cases h
          exact .json hname hread
    · rintro (⟨-, hread⟩ | ⟨hother, -, -⟩)
      · rw [hread]
        rfl
      · exact absurd hother hname

end GatewaySettings

/-- The settings that a run begins with, before the environment goes over them: those of a file, or
the defaults when there is no file. -/
inductive World.Supplies (w : World) : Option String → GatewaySettings → Prop where
  | defaults : w.Supplies none .default
  | file {path text : String} {s : GatewaySettings} (holds : w.Holds path text)
    (decodes : GatewaySettings.Decodes path text s) : w.Supplies (some path) s

/-- The settings of a run load: there are some to begin with, and the environment has no wrong
port. -/
structure World.Loads (w : World) (config : Option String) (s : GatewaySettings) : Prop where
  supplied : ∃ base, w.Supplies config base ∧ s = base.merged w.environment
  port : ∀ text, ¬ w.environment.PortIsWrong text

theorem bind_eq_ok_iff {ε α β : Type} {x : Except ε α} {f : α → Except ε β} {b : β} :
    (x >>= f) = .ok b ↔ ∃ a, x = .ok a ∧ f a = .ok b := by
  cases x <;> simp [bind, Except.bind]

/-- What the settings file states: nothing if there is none. -/
inductive World.States (w : World) : Option String → Stated → Prop where
  | nothing : States w none {}
  | file {path text : String} {stated : Stated} (json : isTomlPath path = false)
    (content : w.text path = .ok text)
    (reads : Json.readText Stated.shape.reader text = .ok stated) : States w (some path) stated

namespace World

variable {w : World}

/-- Bytes are a text exactly when they are the bytes of this text. -/
theorem ofBytes?_eq_some_iff {bytes : Json.Bytes} {text : String} :
    Text.ofBytes? bytes = some text ↔ bytes = Text.bytes text := by
  constructor
  · exact fun h => (Text.bytes_of_ofBytes? h).symm
  · rintro rfl
    exact Text.ofBytes?_bytes text

theorem text_eq_ok_iff {path text : String} : w.text path = .ok text ↔ w.Holds path text := by
  rw [World.text, bind_eq_ok_iff, Holds]
  constructor
  · rintro ⟨bytes, hfile, h⟩
    cases htext : Text.ofBytes? bytes with
    | none =>
        rw [htext] at h
        cases h
    | some found =>
        rw [htext] at h
        cases h
        rw [hfile, ofBytes?_eq_some_iff.mp htext]
  · intro hfile
    exact ⟨_, hfile, by rw [Text.ofBytes?_bytes]⟩

/-- A file holds one text. -/
theorem Holds.unique {path text text' : String} (h : w.Holds path text) (h' : w.Holds path text') :
    text = text' :=
  Text.bytes_injective (Except.ok.inj (Eq.trans (Eq.symm h) h'))

theorem ofFile_eq_ok_iff {path : String} {s : GatewaySettings} :
    GatewaySettings.ofFile path (w.file path) = .ok s ↔
      ∃ text, w.Holds path text ∧ GatewaySettings.Decodes path text s := by
  constructor
  · intro h
    obtain ⟨bytes, text, hfile, htext, hread⟩ := GatewaySettings.ofFile_ok h
    rw [ofBytes?_eq_some_iff.mp htext] at hfile
    exact ⟨text, hfile, GatewaySettings.ofText_eq_ok_iff.mp hread⟩
  · rintro ⟨text, hfile, hdecodes⟩
    rw [Holds] at hfile
    rw [hfile, GatewaySettings.ofFile_of_text (Text.ofBytes?_bytes text)]
    exact GatewaySettings.ofText_eq_ok_iff.mpr hdecodes

theorem settings_eq_ok_iff {config : Option String} {s : GatewaySettings} :
    w.settings config = .ok s ↔ w.Loads config s := by
  cases config with
  | none =>
      refine (GatewaySettings.overlay_eq_ok_iff (s := .default)).trans ⟨?_, ?_⟩
      · rintro ⟨hport, rfl⟩
        exact ⟨⟨_, .defaults, rfl⟩, hport⟩
      · rintro ⟨⟨_, ⟨⟩, rfl⟩, hport⟩
        exact ⟨hport, rfl⟩
  | some path =>
      rw [World.settings.eq_def]
      dsimp only
      simp only [bind_eq_ok_iff, ofFile_eq_ok_iff, GatewaySettings.overlay_eq_ok_iff]
      constructor
      · rintro ⟨base, ⟨text, hholds, hdecodes⟩, hport, rfl⟩
        exact ⟨⟨base, .file hholds hdecodes, rfl⟩, hport⟩
      · rintro ⟨⟨base, _ | ⟨hholds, hdecodes⟩, rfl⟩, hport⟩
        exact ⟨base, ⟨_, hholds, hdecodes⟩, hport, rfl⟩

theorem text_congr {w' : World} {path : String} (h : w'.file path = w.file path) :
    w'.text path = w.text path := by
  rw [World.text, World.text, h]

/-- Every file that gives settings and is not TOML states them. -/
theorem exists_states {path : String} {s : GatewaySettings} (hpath : isTomlPath path = false)
    (h : GatewaySettings.ofFile path (w.file path) = .ok s) :
    ∃ stated, w.States (some path) stated := by
  obtain ⟨bytes, text, hfile, htext, hread⟩ := GatewaySettings.ofFile_ok h
  rw [GatewaySettings.ofText_json hpath] at hread
  cases hstated : Json.readText Stated.shape.reader text with
  | error e =>
      rw [hstated] at hread
      cases hread
  | ok stated =>
      rw [ofBytes?_eq_some_iff.mp htext] at hfile
      exact ⟨stated, .file hpath (text_eq_ok_iff.mpr hfile) hstated⟩

theorem settings_of_states {config : Option String} {stated : Stated}
    (h : w.States config stated) :
    w.settings config = (stated.onto .default).overlay w.environment := by
  cases h with
  | nothing => rfl
  | @file path text stated hpath hcontent hreads =>
      have hfile : w.file path = .ok (Text.bytes text) := text_eq_ok_iff.mp hcontent
      simp only [World.settings, hfile,
        GatewaySettings.ofFile_of_text (Text.ofBytes?_bytes text),
        GatewaySettings.ofText_json hpath, hreads, Except.map, Except.mapError, bind, Except.bind]

/-- A file states one thing. -/
theorem States.unique {config : Option String} {stated stated' : Stated}
    (h : w.States config stated) (h' : w.States config stated') : stated = stated' := by
  cases h with
  | nothing =>
      cases h'
      rfl
  | file json content reads =>
      cases h' with
      | file json' content' reads' =>
          rw [content] at content'
          cases content'
          rw [reads] at reads'
          exact Except.ok.inj reads'

theorem States.of_file_eq {w' : World} {config : Option String} {stated : Stated}
    (h : w.States config stated) (hfile : w'.file = w.file) : w'.States config stated := by
  cases h with
  | nothing => exact .nothing
  | @file path text stated hpath hcontent hreads =>
      exact .file hpath ((text_congr (congrFun hfile path)).trans hcontent) hreads

end World

end CodeReview
