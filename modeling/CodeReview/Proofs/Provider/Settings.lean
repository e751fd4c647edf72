import CodeReview.Provider.Settings
import CodeReview.Proofs.Json.Image
import CodeReview.Proofs.Messages
import Mathlib.Data.List.DropRight

/-!
The settings of the model field by field: what a file says goes over the defaults, and what the
environment says goes over both. The root of the addresses loses the slashes at its end when it
comes from the environment or is set, and only then.
-/

namespace CodeReview

open Json (Shape member Readable Reads)
open Json.Shape (fills_member fills_member?)

theorem getD_getD_self {α : Type} (o : Option α) (a : α) : o.getD (o.getD a) = o.getD a := by
  cases o <;> rfl

/-! ### The environment -/

namespace Environment

theorem given?_eq_some_iff {env : Environment} {key value : String} :
    env.given? key = some value ↔ env key = some value ∧ Text.allBlank value = false := by
  rw [given?, Option.filter_eq_some_iff]
  simp

theorem given?_congr {env env' : Environment} {key : String} (h : env key = env' key) :
    env.given? key = env'.given? key := by
  rw [given?, given?, h]

end Environment

namespace ModelSettings

/-- The text ends in a slash. -/
def EndsInSlash (url : String) : Prop :=
  url.toList.getLast? = some '/'

instance (url : String) : Decidable (EndsInSlash url) :=
  inferInstanceAs (Decidable (url.toList.getLast? = some '/'))

/-- What is dropped are slashes at the end. -/
theorem exists_withoutSlashes_append (url : String) :
    ∃ n, url = withoutSlashes url ++ String.ofList (List.replicate n '/') := by
  let isSlash (c : Char) : Bool := c = '/'
  let slashes := url.toList.rtakeWhile isSlash
  refine ⟨slashes.length, String.toList_injective ?_⟩
  have hslashes : slashes = List.replicate slashes.length '/' :=
    List.eq_replicate_of_mem fun c hc =>
      of_decide_eq_true (List.mem_rtakeWhile_imp (p := isSlash) hc)
  rw [String.toList_append, String.toList_ofList, ← hslashes, withoutSlashes,
    String.toList_ofList]
  exact (List.rdropWhile_append_rtakeWhile ..).symm

/-- All slashes at the end are dropped. -/
theorem not_endsInSlash_withoutSlashes (url : String) : ¬ EndsInSlash (withoutSlashes url) := by
  intro h
  rw [EndsInSlash, withoutSlashes, String.toList_ofList, List.getLast?_reverse] at h
  have hlast := List.head?_dropWhile_not (fun c => decide (c = '/')) url.toList.reverse
  rw [h] at hlast
  simp at hlast

/-- Every field after the environment went over the settings. -/
theorem overlay_eq (env : Environment) (s : ModelSettings) :
    s.overlay env =
      { apiKey := ((env.given? "GOOGLE_API_KEY").or (env.given? "GEMINI_API_KEY")).or s.apiKey
        model := (env.given? "CODELENS_MODEL").getD s.model
        baseUrl := ((env.given? "CODELENS_MODEL_BASE_URL").map withoutSlashes).getD s.baseUrl
        temperature := s.temperature
        maxOutputTokens := s.maxOutputTokens
        timeoutSeconds := s.timeoutSeconds } := by
  have hkeys : apiKeyVariables.findSome? env.given? =
      (env.given? "GOOGLE_API_KEY").or (env.given? "GEMINI_API_KEY") := by
    simp only [apiKeyVariables, List.findSome?_cons, List.findSome?_nil]
    cases env.given? "GOOGLE_API_KEY" <;> cases env.given? "GEMINI_API_KEY" <;> rfl
  rw [overlay, hkeys]
  cases (env.given? "GOOGLE_API_KEY").or (env.given? "GEMINI_API_KEY") <;>
    cases env.given? "CODELENS_MODEL" <;> cases env.given? "CODELENS_MODEL_BASE_URL" <;> rfl

theorem overlay_overlay (env : Environment) (s : ModelSettings) :
    (s.overlay env).overlay env = s.overlay env := by
  simp only [overlay_eq, getD_getD_self, ← Option.or_assoc, Option.or_self]

/-! ### Files -/

/-- The settings that a file states. Each of them may be absent. -/
structure Stated where
  /-- The secret may also be stated to be absent. -/
  apiKey : Option (Option String) := none
  model : Option String := none
  baseUrl : Option String := none
  temperature : Option Float := none
  maxOutputTokens : Option UInt32 := none
  timeoutSeconds : Option UInt64 := none

namespace Stated

/-- What is not stated is as before. -/
def onto (base : ModelSettings) (s : Stated) : ModelSettings where
  apiKey := s.apiKey.getD base.apiKey
  model := s.model.getD base.model
  baseUrl := s.baseUrl.getD base.baseUrl
  temperature := s.temperature.getD base.temperature
  maxOutputTokens := s.maxOutputTokens.getD base.maxOutputTokens
  timeoutSeconds := s.timeoutSeconds.getD base.timeoutSeconds

/-- All settings but for the secret. -/
def ofSettings (s : ModelSettings) : Stated where
  model := s.model
  baseUrl := s.baseUrl
  temperature := s.temperature
  maxOutputTokens := s.maxOutputTokens
  timeoutSeconds := s.timeoutSeconds

def shape : Shape Stated where
  name := "GeminiConfig"
  blank := {}
  members :=
    [member "api_key" .defaulted (.optional .text) fun k s => { s with apiKey := some k },
     member "model" .defaulted .text fun m s => { s with model := some m },
     member "base_url" .defaulted .text fun u s => { s with baseUrl := some u },
     member "temperature" .defaulted .float fun t s => { s with temperature := some t },
     member "max_output_tokens" .defaulted .halfWord
       fun n s => { s with maxOutputTokens := some n.toUInt32 },
     member "timeout_secs" .defaulted .fullWord
       fun n s => { s with timeoutSeconds := some n.toUInt64 }]

def toJson (s : Stated) : Json :=
  .object
    (Json.member? "api_key" (s.apiKey.map fun k => Json.orNull (k.map .text)) ++
     Json.member? "model" (s.model.map .text) ++
     Json.member? "base_url" (s.baseUrl.map .text) ++
     Json.member? "temperature" (s.temperature.map .ofFloat) ++
     Json.member? "max_output_tokens" (s.maxOutputTokens.map fun n => .ofNat n.toNat) ++
     Json.member? "timeout_secs" (s.timeoutSeconds.map fun n => .ofNat n.toNat))

section Json

variable {P : Json.Number → Prop}

theorem readable {depth : Nat} (hword : ∀ n : Nat, n < 2 ^ 64 → P (.integer n)) {s : Stated}
    (htemperature : ∀ t ∈ s.temperature, P (.real t)) : Readable P (depth + 1) s.toJson := by
  rw [toJson, Json.readable_object_iff]
  constructor
  · obtain ⟨apiKey, model, baseUrl, temperature, tokens, timeout⟩ := s
    cases apiKey <;> cases model <;> cases baseUrl <;> cases temperature <;> cases tokens <;>
      cases timeout <;> simp [Json.member?]
  · simp only [List.forall_mem_append, Json.forall_mem_member?]
    exact ⟨⟨⟨⟨⟨fun k _ => Json.readable_orNull k, fun m _ => Json.readable_text m⟩,
      fun u _ => Json.readable_text u⟩, fun t ht => Json.readable_number (htemperature t ht)⟩,
      fun n _ => Json.readable_number (hword _ (Nat.lt_trans n.toNat_lt (by decide)))⟩,
      fun n _ => Json.readable_number (hword _ n.toNat_lt)⟩

theorem reads (hkept : ∀ n, P n → n.Kept) (s : Stated) : Reads P shape.reader s.toJson s := by
  have tokens (n : UInt32) : Reads P .halfWord (.ofNat n.toNat) n.toNat :=
    Json.reads_natural hkept _ (Nat.le_of_lt_succ n.toNat_lt)
  have timeout (n : UInt64) : Reads P .fullWord (.ofNat n.toNat) n.toNat :=
    Json.reads_natural hkept _ (Nat.le_of_lt_succ n.toNat_lt)
  refine Json.Shape.reads_record (List.rel_append (List.rel_append (List.rel_append
    (List.rel_append (List.rel_append
      (fills_member? fun _ => fills_member rfl (Json.reads_orNull _))
      (fills_member? fun _ => fills_member rfl (Json.reads_text _)))
      (fills_member? fun _ => fills_member rfl (Json.reads_text _)))
      (fills_member? fun _ => fills_member rfl (Json.reads_float hkept _)))
      (fills_member? fun _ => fills_member rfl (tokens _)))
      (fills_member? fun _ => fills_member rfl (timeout _))) ?_ ?_
  · simp [Json.Shape.Complete, shape, member]
  · obtain ⟨apiKey, model, baseUrl, temperature, tokens, timeout⟩ := s
    cases apiKey <;> cases model <;> cases baseUrl <;> cases temperature <;> cases tokens <;>
      cases timeout <;> simp [shape]

end Json

end Stated

/-- The settings are read from a file as what the file states, over the defaults. -/
theorem reader_eq : shape.reader = Stated.shape.reader.map (·.onto default) :=
  Json.Shape.reader_map
    (.cons (.member fun _ _ => rfl) <| .cons (.member fun _ _ => rfl) <|
      .cons (.member fun _ _ => rfl) <| .cons (.member fun _ _ => rfl) <|
      .cons (.member fun _ _ => rfl) <| .cons (.member fun _ _ => rfl) .nil) rfl rfl

/-! ### Changes -/

/-- A change to settings that are there. -/
inductive Change where
  | overlay (env : Environment)
  | apiKey (key : String)
  | model (name : String)
  | baseUrl (url : String)
  | temperature (t : Float)
  | maxOutputTokens (n : UInt32)
  | timeoutSeconds (n : UInt64)

namespace Change

def apply (s : ModelSettings) : Change → ModelSettings
  | .overlay env => s.overlay env
  | .apiKey key => s.withApiKey key
  | .model name => s.withModel name
  | .baseUrl url => s.withBaseUrl url
  | .temperature t => s.withTemperature t
  | .maxOutputTokens n => s.withMaxOutputTokens n
  | .timeoutSeconds n => s.withTimeoutSeconds n

/-- The root that a change sets, before its slashes are dropped. -/
def root? : Change → Option String
  | .overlay env => env.given? "CODELENS_MODEL_BASE_URL"
  | .baseUrl url => some url
  | _ => none

theorem baseUrl_apply (c : Change) (s : ModelSettings) :
    (c.apply s).baseUrl = (c.root?.map withoutSlashes).getD s.baseUrl := by
  cases c with
  | overlay env => rw [apply, overlay_eq, root?]
  | baseUrl url => rfl
  | apiKey key => rfl
  | model name => rfl
  | temperature t => rfl
  | maxOutputTokens n => rfl
  | timeoutSeconds n => rfl

end Change

/-- The settings after the changes, made one after the other. -/
def changed (cs : List Change) (s : ModelSettings) : ModelSettings :=
  cs.foldl Change.apply s

/-- The root is the last one that was set, without its slashes, or it is as it was. -/
theorem baseUrl_changed (cs : List Change) (s : ModelSettings) :
    (changed cs s).baseUrl =
      ((cs.reverse.findSome? Change.root?).map withoutSlashes).getD s.baseUrl := by
  induction cs generalizing s with
  | nil => rfl
  | cons c cs ih =>
      rw [changed, List.foldl_cons, ← changed, ih, Change.baseUrl_apply, List.reverse_cons,
        List.findSome?_append, List.findSome?_singleton]
      cases cs.reverse.findSome? Change.root? <;> rfl

/-- A slash stays at the end of the root only if no change sets the root. -/
theorem endsInSlash_changed_iff {cs : List Change} {s : ModelSettings} :
    EndsInSlash (changed cs s).baseUrl ↔ (∀ c ∈ cs, c.root? = none) ∧ EndsInSlash s.baseUrl := by
  rw [baseUrl_changed]
  cases hroot : cs.reverse.findSome? Change.root? with
  | none =>
      have hnone : ∀ c ∈ cs, c.root? = none := by simpa using hroot
      exact (and_iff_right hnone).symm
  | some url =>
      obtain ⟨c, hc, hurl⟩ := List.exists_of_findSome?_eq_some hroot
      refine iff_of_false (not_endsInSlash_withoutSlashes url) fun h => ?_
      rw [h.1 c (List.mem_reverse.mp hc)] at hurl
      cases hurl

end ModelSettings

end CodeReview
