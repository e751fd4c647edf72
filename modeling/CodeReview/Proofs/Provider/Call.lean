import CodeReview.Proofs.Messages
import CodeReview.Proofs.Provider.Completion

/-!
What the model is shown. The code of a request is read from the text of the request, becomes a part
of a prompt, and the prompt becomes a part of the text of a call. On this way nothing is cut off,
escaped twice or taken for something else: whoever reads the call finds the code as it was
submitted.
-/

namespace CodeReview.Client

open Json (Shape member Readable Reads)
open Json.Shape (fills_member)

/-! ### Calls as they are read -/

/-- What a call asks the model, without the settings that come with it. -/
structure Asked where
  contents : List Content

def Asked.shape : Shape Asked where
  name := "GeminiRequest"
  blank := ⟨[]⟩
  members :=
    [member "contents" .required (.list Content.shape.reader)
      fun cs a => { a with contents := cs }]

section Body

variable {P : Json.Number → Prop} (s : ModelSettings) (prompt : String)

/-- The one content of a call, as it is written. -/
def contentJson : Json :=
  .object [("role", .text "user"), ("parts", .list [.object [("text", .text prompt)]])]

theorem readable_callBody {depth : Nat} (htemperature : P (.real s.temperature))
    (htokens : P (.integer s.maxOutputTokens.toNat)) :
    Readable P (depth + 5) (callBody s prompt) := by
  have hpart : Readable P (depth + 1) (.object [("text", .text prompt)]) :=
    Json.readable_object_iff.mpr
      ⟨by simp, List.forall_mem_singleton.mpr (Json.readable_text prompt)⟩
  have hcontent : Readable P (depth + 3) (contentJson prompt) :=
    Json.readable_object_iff.mpr ⟨by simp, List.forall_mem_cons.mpr ⟨Json.readable_text _,
      List.forall_mem_singleton.mpr
        (Json.readable_list_iff.mpr (List.forall_mem_singleton.mpr hpart))⟩⟩
  have hsettings : Readable P (depth + 4) (.object [("temperature", .ofFloat s.temperature),
      ("maxOutputTokens", .ofNat s.maxOutputTokens.toNat)]) :=
    Json.readable_object_iff.mpr ⟨by simp, List.forall_mem_cons.mpr
      ⟨Json.readable_number htemperature,
        List.forall_mem_singleton.mpr (Json.readable_number htokens)⟩⟩
  exact Json.readable_object_iff.mpr ⟨by simp, List.forall_mem_cons.mpr
    ⟨Json.readable_list_iff.mpr (List.forall_mem_singleton.mpr hcontent),
      List.forall_mem_singleton.mpr hsettings⟩⟩

/-- Of a call the one content with the prompt is read; its settings are passed over. -/
theorem reads_callBody :
    Reads P Asked.shape.reader (callBody s prompt) ⟨[⟨some "user", [⟨some prompt⟩]⟩]⟩ := by
  have hpart : Reads P Part.shape.reader (.object [("text", .text prompt)]) ⟨some prompt⟩ :=
    Json.Shape.reads_record (.cons (fills_member rfl (reads_optionalText prompt)) .nil)
      (by simp [Json.Shape.Complete, Part.shape, member]) rfl
  have hcontent :
      Reads P Content.shape.reader (contentJson prompt) ⟨some "user", [⟨some prompt⟩]⟩ :=
    Json.Shape.reads_record (.cons (fills_member rfl (reads_optionalText "user"))
      (.cons (fills_member rfl (Json.reads_list (.cons hpart .nil))) .nil))
      (by simp [Json.Shape.Complete, Content.shape, member]) rfl
  exact Json.Shape.reads_record
    (.cons (fills_member rfl (Json.reads_list (.cons hcontent .nil))) (.cons (.unknown rfl) .nil))
    (by simp [Json.Shape.Complete, Asked.shape, member]) rfl

theorem readText_callBody :
    Json.readText Asked.shape.reader (call s prompt).body =
      .ok ⟨[⟨some "user", [⟨some prompt⟩]⟩]⟩ := by
  have hv : Readable (fun _ => True) Json.maxDepth (callBody s prompt) :=
    readable_callBody s prompt trivial trivial
  exact (reads_callBody s prompt).readText (Json.encodes_compact hv) hv

/-- Read as a value, the call has the prompt in the same place. Only the text of the temperature has
to be readable for this, as whatever number. -/
theorem field?_contents (htemperature : (Json.Number.real s.temperature).Legible) :
    ∃ v, Json.readText .value (call s prompt).body = .ok v ∧
      v.field? "contents" = some (.list [contentJson prompt]) := by
  have hv : Readable Json.Number.Legible Json.maxDepth (callBody s prompt) :=
    readable_callBody s prompt htemperature
      (Json.Number.kept_word _ (Nat.lt_trans s.maxOutputTokens.toNat_lt (by decide))).legible
  have htakes := (Json.takes_write (Json.Number.readsBack Json.Layout.isBlank_compact)
    (callBody s prompt) 0 hv).1
  refine ⟨_, Json.readText_of_takes htakes, ?_⟩
  rfl

end Body

/-! ### From the text of a request to the call -/

/-- Whatever code is submitted, the call that the request leads to shows the model one text, in
which this code stands between a header and a trailer. It does not matter how the request is
written: with whatever escapes, it is read as it is meant. -/
theorem asked_of_request (s : ModelSettings) {request : Request} {code language : String}
    (hcode : request.code = some code) (hlanguage : request.language = some language)
    (hshows : ∃ c ∈ code.toList, Text.isBlank c = false)
    (hnamed : ∃ c ∈ language.toList, Text.isBlank c = false) :
    let tags := request.focus.getD ["syntax", "best-practices"]
    let prompt := Prompt.header (Text.trim language) ++ code ++ Prompt.trailer tags
    (∀ t, Json.Encodes Json.Number.Kept t request.toJson →
      Json.readText Request.shape.reader t = .ok request) ∧
    (∀ t, Json.readText Request.shape.reader t = .ok request →
      ∀ network, ((Invocation.handleBody (reviewer s) t).via (ask s)).questions network =
        if canSend s then [call s prompt] else []) ∧
    prompt = Prompt.build (Text.trim language) code tags ∧
    Json.readText Asked.shape.reader (call s prompt).body =
      .ok ⟨[⟨some "user", [⟨some prompt⟩]⟩]⟩ ∧
    ((Json.Number.real s.temperature).Legible →
      ∃ v, Json.readText .value (call s prompt).body = .ok v ∧
        v.field? "contents" = some (.list [contentJson prompt])) := by
  dsimp only
  have hcomplete : ¬ request.Incomplete :=
    not_or.mpr ⟨Request.not_lacking hcode hshows, Request.not_lacking hlanguage hnamed⟩
  obtain ⟨code', language', hcode', hlanguage', hcourse⟩ :=
    (reviewer s).analyze_of_complete hcomplete
  obtain rfl : code = code' := Option.some.inj (hcode.symm.trans hcode')
  obtain rfl : language = language' := Option.some.inj (hlanguage.symm.trans hlanguage')
  refine ⟨fun _ => request.readText_encoded, fun t hread network => ?_, rfl, readText_callBody s _,
    field?_contents s _⟩
  rw [Invocation.handleBody, hread]
  dsimp only
  rw [hcourse, Course.map_once, Course.questions_via, Course.questions_once,
    List.flatMap_singleton, ask]
  split <;> rfl

/-- Code of marks that mean something to one of the stages: to JSON, to a template and to a printer
of lines. -/
theorem asked_of_request_marks :
    let s := ModelSettings.default.withTemperature 0.5
    let code := "\"\\u0041\u0000\x7b\x7b0\x7d\u2028 \n"
    let request : Request :=
      { code := some code, language := some "\u3000rust ", focus := some ["security", " "] }
    let t := Json.indented request.toJson
    let prompt := Prompt.header "rust" ++ code ++ Prompt.trailer ["security", " "]
    (∀ network, ((Invocation.handleBody (reviewer s) t).via (ask s)).questions network =
      [call s prompt]) ∧
      Json.readText Asked.shape.reader (call s prompt).body =
        .ok ⟨[⟨some "user", [⟨some prompt⟩]⟩]⟩ ∧
      ∃ v, Json.readText .value (call s prompt).body = .ok v ∧
        v.field? "contents" = some (.list [contentJson prompt]) := by
  intro s code request t prompt
  have hv : Readable Json.Number.Kept Json.maxDepth request.toJson := request.readable
  have hcode : request.code = some code := rfl
  have htrim : Text.trim "\u3000rust " = "rust" := by decide
  have hsend : canSend s = true := by decide +kernel
  obtain ⟨hread, hasked, -, hbody, hvalue⟩ := asked_of_request s hcode rfl
    ⟨'0', by decide, by decide⟩ ⟨'r', by decide, by decide⟩
  specialize hasked t (hread t (Json.encodes_indented hv))
  rw [htrim] at hasked hbody hvalue
  simp only [if_pos hsend] at hasked
  exact ⟨hasked, hbody, hvalue (Json.Number.legible_real Json.survives_half)⟩

end CodeReview.Client
