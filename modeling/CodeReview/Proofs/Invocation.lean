import CodeReview.Invocation
import CodeReview.Proofs.Json.OneLine
import CodeReview.Proofs.Report.Measure
import CodeReview.Proofs.Report.Schema
import CodeReview.Proofs.Report.Wire
import CodeReview.Proofs.Review

/-!
How every invocation ends. The method of the event comes first, then its body, then the request in
the body, and only then the model; each of them can end the invocation with a response of its own.
Whatever happens, the response has the same headers, and a body that is one line of JSON if there is
one.
-/

namespace CodeReview

/-! ### Bodies -/

theorem readable_errorBody (P : Json.Number → Prop) (message : String) :
    Json.Readable P Json.maxDepth (.object [("error", .text message)]) := by
  rw [Json.maxDepth, Json.readable_object_iff]
  exact ⟨by simp, by simpa using Json.readable_text message⟩

/-- The message is read back from the body that tells it, whatever characters are in it. -/
theorem readText_errorBody (message : String) :
    Json.readText .value (errorBody message) = .ok (.object [("error", .text message)]) :=
  Json.readText_compact (fun _ => False.elim) (readable_errorBody (fun _ => False) message)

/-! ### Reports -/

theorem Findings.finite_confidence (e : Reply.Entries) :
    ∀ s ∈ (ofEntries e).suggestions, s.confidence.isFinite = true :=
  fun s hs => ((conforms_ofEntries e).eachSuggestion s hs).confidence.1

/-- No float in the report of an answer is infinite, and none is missing. -/
theorem Report.Follows.finite_floats {reviewer : Reviewer} {answer : Answer} {r : Report}
    (h : r.Follows reviewer answer) {code : String} (hmetrics : r.metrics = Metrics.ofCode code) :
    ∀ x ∈ r.floats, x.isFinite = true := by
  have hconfidence : ∀ s ∈ r.suggestions, s.confidence.isFinite = true := by
    cases answer with
    | reply text =>
        rw [h.2.1]
        exact Findings.finite_confidence (Reply.entries text)
    | failure chain => simp [h.2.1]
    | silence => simp [h.2.1]
    | crash => simp [h.2.1]
  rw [floats, hmetrics, List.forall_mem_append, List.forall_mem_map, List.forall_mem_cons]
  exact ⟨hconfidence, (Metrics.small_debt _ _).isFinite, List.forall_mem_nil _⟩

namespace Invocation

/-- The texts are the same but for the case of the letters from `A` to `Z`. -/
def SameButCase (s t : String) : Prop :=
  Text.lowerAscii s = Text.lowerAscii t

/-- A text equals one in capitals, in capitals itself, when it is the same but for the case. -/
theorem upperAscii_eq_iff {s t : String} (ht : t.toList.map Char.toUpper = t.toList) :
    Text.upperAscii s = t ↔ SameButCase s t := by
  have hlower : Char.toLower ∘ Char.toUpper = Char.toLower :=
    funext Char.toLower_toUpper_eq_toLower
  have hupper : Char.toUpper ∘ Char.toLower = Char.toUpper :=
    funext Char.toUpper_toLower_eq_toUpper
  have hcapitals : t.map Char.toUpper = t := by
    apply String.toList_injective
    rw [String.toList_map, ht]
  rw [SameButCase, Text.upperAscii, Text.lowerAscii, Text.lowerAscii]
  constructor
  · intro h
    rw [← h, String.map_map, hlower]
  · intro h
    have hmap := congrArg (String.map Char.toUpper) h
    rwa [String.map_map, String.map_map, hupper, hcapitals] at hmap

theorem upperAscii_eq_options_iff {s : String} :
    Text.upperAscii s = "OPTIONS" ↔ SameButCase s "OPTIONS" :=
  upperAscii_eq_iff (by decide)

theorem upperAscii_eq_post_iff {s : String} :
    Text.upperAscii s = "POST" ↔ SameButCase s "POST" :=
  upperAscii_eq_iff (by decide)

/-! ### Courses -/

section Courses

variable (reviewer : Reviewer) {event : Event} {body : String} {request : Request}

theorem handle_options (h : SameButCase event.method "OPTIONS") :
    handle reviewer event = .done (.ofBody 200 "") := by
  rw [handle, upperAscii_eq_options_iff.mpr h]
  rfl

theorem handle_post (h : SameButCase event.method "POST") :
    handle reviewer event = handleBody reviewer (event.body.getD "\x7b\x7d") := by
  rw [handle, upperAscii_eq_post_iff.mpr h]
  rfl

theorem handle_other (hoptions : ¬ SameButCase event.method "OPTIONS")
    (hpost : ¬ SameButCase event.method "POST") :
    handle reviewer event = .done (.ofError 405 "Method not allowed") := by
  rw [handle]
  split
  · rename_i h
    exact absurd (upperAscii_eq_options_iff.mp h) hoptions
  · rename_i h
    exact absurd (upperAscii_eq_post_iff.mp h) hpost
  · rfl

theorem handleBody_unreadable {refusal : Json.Refusal}
    (h : Json.readText Request.shape.reader body = .error refusal) :
    handleBody reviewer body = .done (.ofError 400 (unreadableBody refusal.message)) := by
  rw [handleBody, h]

theorem handleBody_incomplete (h : Json.readText Request.shape.reader body = .ok request)
    (hrequest : request.Incomplete) :
    handleBody reviewer body = .done (.ofError 400 Request.missingFields) := by
  rw [handleBody, h]
  dsimp only
  rw [reviewer.analyze_of_incomplete hrequest]
  rfl

/-- A whole request is answered after one question, whatever the model does. -/
theorem handleBody_complete (h : Json.readText Request.shape.reader body = .ok request)
    (hrequest : ¬ request.Incomplete) :
    ∃ prompt job, reviewer.analyze request = .once prompt (reviewer.conclude job) ∧
      handleBody reviewer body =
        .once prompt fun reaction => .ofOutcome (reviewer.conclude job reaction) := by
  obtain ⟨code, language, -, -, hcourse⟩ := reviewer.analyze_of_complete hrequest
  refine ⟨_, _, hcourse, ?_⟩
  rw [handleBody, h]
  dsimp only
  rw [hcourse]
  rfl

end Courses

/-! ### Responses -/

/-- The responses that there are. -/
inductive Response.Told : Response → Prop where
  | empty (status : UInt16) : Told (ofBody status "")
  | error (status : UInt16) (message : String) : Told (ofError status message)
  | report (r : Report) : Told (ofBody 200 (Json.compact r.toJson))

theorem Response.told_ofOutcome : ∀ outcome, (ofOutcome outcome).Told
  | .report r => .report r
  | .refused (.invalidRequest message) => .error 400 message
  | .refused (.modelInvocation _) => .error 500 _
  | .refused (.timeout _) => .error 500 _
  | .refused (.internal _) => .error 500 _
  | .crashed => .error 500 _

theorem told_run (reviewer : Reviewer) (event : Event) (model : String → Reaction) :
    ((handle reviewer event).run model).Told := by
  rw [handle]
  split
  · exact .empty 200
  · rw [handleBody]
    split
    · exact .error 400 _
    · rw [Course.run_map]
      exact Response.told_ofOutcome _
  · exact .error 405 _

namespace Response.Told

variable {r : Response} (h : r.Told)
include h

theorem headers : r.headers = commonHeaders := by
  cases h <;> rfl

/-- A body is one line, and one object of JSON. -/
theorem body (hbody : r.body ≠ "") :
    Json.IsObject r.body ∧ ∀ c ∈ r.body.toList, 0x20 ≤ c.toNat := by
  cases h with
  | empty status => exact absurd rfl hbody
  | error status message =>
      have hreadable := readable_errorBody (fun _ => True) message
      exact ⟨(Json.encodes_compact hreadable).isObject, Json.le_of_mem_compact _⟩
  | report r =>
      have hreadable : Json.Readable (fun _ => True) Json.maxDepth r.toJson :=
        r.readable (fun _ _ => trivial) (fun _ _ => trivial) trivial fun _ _ => trivial
      exact ⟨(Json.encodes_compact hreadable).isObject, Json.le_of_mem_compact _⟩

end Response.Told

/-- The response has this status, and its body is the object that tells this message, which is read
back from it. -/
structure Response.Refuses (r : Response) (status : UInt16) (message : String) : Prop where
  status : r.status = status
  body : r.body = errorBody message
  back : Json.readText .value r.body = .ok (.object [("error", .text message)])

theorem Response.refuses_ofError (status : UInt16) (message : String) :
    (ofError status message).Refuses status message :=
  ⟨rfl, rfl, readText_errorBody message⟩

/-- The response has a report as its body, which is read back from it if finite floats are read back
from their texts. -/
structure Response.Reports (r : Response) (report : Report) : Prop where
  status : r.status = 200
  body : r.body = Json.compact report.toJson
  back : (∀ x ∈ report.floats, x.isFinite = true → Json.Survives x) →
    Json.readText Report.shape.reader r.body = .ok report

theorem Response.reports_ofOutcome {report : Report}
    (hfinite : ∀ x ∈ report.floats, x.isFinite = true) :
    (ofOutcome (.report report)).Reports report where
  status := rfl
  body := rfl
  back := by
    intro h
    have hsurvives : ∀ x ∈ report.floats, Json.Survives x := fun x hx => h x hx (hfinite x hx)
    exact report.readText_encoded hsurvives (Json.encodes_compact (report.readable_kept hsurvives))

/-! ### Invocations -/

/-- How a posted body is answered in a course: without a question when it cannot be read or lacks
something, and after one question otherwise. -/
structure Answers (reviewer : Reviewer) (body : String) (model : String → Reaction)
    (course : Course String Reaction Response) : Prop where
  unreadable : ∀ refusal, Json.readText Request.shape.reader body = .error refusal →
    course.questions model = [] ∧
      (course.run model).Refuses 400 ("Invalid request body: " ++ refusal.message)
  incomplete : ∀ request, Json.readText Request.shape.reader body = .ok request →
    request.Incomplete → course.questions model = [] ∧
      (course.run model).Refuses 400 "Code and language are required"
  complete : ∀ request, Json.readText Request.shape.reader body = .ok request →
    ¬ request.Incomplete → ∃ prompt, course.questions model = [prompt] ∧
      ((model prompt).value = .crash →
        (course.run model).Refuses 500 "Internal server error") ∧
      ((model prompt).value ≠ .crash → ∃ report,
        (reviewer.analyze request).run model = .report report ∧
          (course.run model).Reports report)

theorem answers_handleBody (reviewer : Reviewer) (body : String) (model : String → Reaction) :
    Answers reviewer body model (handleBody reviewer body) where
  unreadable := by
    intro refusal hread
    rw [handleBody_unreadable reviewer hread]
    exact ⟨rfl, Response.refuses_ofError 400 _⟩
  incomplete := by
    intro request hread hrequest
    rw [handleBody_incomplete reviewer hread hrequest]
    exact ⟨rfl, Response.refuses_ofError 400 _⟩
  complete := by
    intro request hread hrequest
    obtain ⟨prompt, job, hcourse, hhandle⟩ := handleBody_complete reviewer hread hrequest
    rw [hhandle, hcourse]
    refine ⟨prompt, rfl, fun hcrash => ?_, fun halive => ?_⟩
    · have hconclude : reviewer.conclude job (model prompt) = .crashed := by
        rw [Reviewer.conclude, hcrash]
      rw [Course.run_once, hconclude]
      exact Response.refuses_ofError 500 _
    · obtain ⟨report, hreport, hmetrics, hfollows⟩ := reviewer.conclude_report job halive
      refine ⟨report, hreport, ?_⟩
      rw [Course.run_once, hreport]
      exact Response.reports_ofOutcome (hfollows.finite_floats hmetrics)

theorem Answers.status_eq_500_iff {reviewer : Reviewer} {body : String}
    {model : String → Reaction} {course : Course String Reaction Response}
    (h : Answers reviewer body model course) :
    (course.run model).status = 500 ↔
      ∃ prompt, course.questions model = [prompt] ∧ (model prompt).value = .crash := by
  have hrefused {message : String}
      (h : course.questions model = [] ∧ (course.run model).Refuses 400 message) :
      (course.run model).status = 500 ↔
        ∃ prompt, course.questions model = [prompt] ∧ (model prompt).value = .crash := by
    simp [h.1, h.2.status]
  cases hread : Json.readText Request.shape.reader body with
  | error refusal => exact hrefused (h.unreadable refusal hread)
  | ok request =>
      by_cases hrequest : request.Incomplete
      · exact hrefused (h.incomplete request hread hrequest)
      · obtain ⟨prompt, hasked, hcrashed, halive⟩ := h.complete request hread hrequest
        simp only [hasked, List.cons.injEq, and_true, exists_eq_left']
        constructor
        · intro hstatus
          by_contra hcrash
          obtain ⟨report, -, hreports⟩ := halive hcrash
          exact absurd (hreports.status.symm.trans hstatus) (by decide)
        · exact fun hcrash => (hcrashed hcrash).status

/-- Every event is answered. The method decides first, and of events that post something the body;
a model is asked, once, only about a whole request, and breaks the invocation exactly when it
crashes. Every response has the same headers, and its body, if it has one, is an object of JSON in
one line. -/
theorem handle_ends (reviewer : Reviewer) (event : Event) (model : String → Reaction) :
    let course := handle reviewer event
    let response := course.run model
    (SameButCase event.method "OPTIONS" →
      course.questions model = [] ∧ response.status = 200 ∧ response.body = "") ∧
    (¬ SameButCase event.method "OPTIONS" → ¬ SameButCase event.method "POST" →
      course.questions model = [] ∧ response.Refuses 405 "Method not allowed") ∧
    (SameButCase event.method "POST" →
      Answers reviewer (event.body.getD "\x7b\x7d") model course) ∧
    (response.status = 500 ↔
      ∃ prompt, course.questions model = [prompt] ∧ (model prompt).value = .crash) ∧
    response.headers =
      [("Access-Control-Allow-Headers", "Content-Type"),
       ("Access-Control-Allow-Methods", "GET, POST, OPTIONS"),
       ("Access-Control-Allow-Origin", "*"), ("Content-Type", "application/json")] ∧
    (response.body ≠ "" →
      Json.IsObject response.body ∧ ∀ c ∈ response.body.toList, 0x20 ≤ c.toNat) := by
  dsimp only
  have hoptions (h : SameButCase event.method "OPTIONS") :
      handle reviewer event = .done (.ofBody 200 "") :=
    handle_options reviewer h
  have hpost (h : SameButCase event.method "POST") :
      Answers reviewer (event.body.getD "\x7b\x7d") model (handle reviewer event) := by
    rw [handle_post reviewer h]
    exact answers_handleBody reviewer _ model
  have htold := told_run reviewer event model
  refine ⟨fun h => ?_, fun h h' => ?_, hpost, ?_, htold.headers, htold.body⟩
  · rw [hoptions h]
    exact ⟨rfl, rfl, rfl⟩
  · rw [handle_other reviewer h h']
    exact ⟨rfl, Response.refuses_ofError 405 _⟩
  · by_cases h : SameButCase event.method "POST"
    · exact (hpost h).status_eq_500_iff
    · -- No other method asks a question, and none breaks.
      by_cases h' : SameButCase event.method "OPTIONS"
      · rw [hoptions h']
        exact ⟨nofun, nofun⟩
      · rw [handle_other reviewer h' h]
        exact ⟨nofun, nofun⟩

/-- A line of code that is posted in small letters, and a model that stays silent. -/
theorem handle_ends_silent :
    let reviewer : Reviewer := ⟨"gemini-pro", 30000⟩
    let event : Event :=
      ⟨"post", some "\x7b\"code\":\"x = 1\",\"language\":\"python\"\x7d"⟩
    let model : String → Reaction := fun _ => ⟨.silence, 30000⟩
    let report : Report := .fallback (.ofCode "x = 1") 30000
    let response := (handle reviewer event).run model
    response.status = 200 ∧ Json.readText Report.shape.reader response.body = .ok report := by
  intro reviewer event model report response
  let request : Request := { code := some "x = 1", language := some "python" }
  have hpost : SameButCase event.method "POST" := upperAscii_eq_post_iff.mp (by decide +kernel)
  have hread : Json.readText Request.shape.reader (event.body.getD "\x7b\x7d") = .ok request := by
    have hsome : (Json.readText Request.shape.reader (event.body.getD "\x7b\x7d")).toOption =
        some request := by
      decide +kernel
    exact Json.ok_of_toOption hsome
  have hcomplete : ¬ request.Incomplete := by
    rw [Request.Incomplete, not_or, Request.not_lacking_iff, Request.not_lacking_iff]
    exact ⟨⟨_, rfl, by decide⟩, _, rfl, by decide⟩
  have hanswers := (handle_ends reviewer event model).2.2.1 hpost
  obtain ⟨prompt, -, -, halive⟩ := hanswers.complete request hread hcomplete
  have hsilent : (model prompt).value ≠ .crash := by
    intro h
    cases h
  obtain ⟨report', hreport, hreports⟩ := halive hsilent
  have hsame : report' = report := by
    cases hreport
    rfl
  rw [hsame] at hreports
  -- The code is so short that there is no debt, and nothing else is a float.
  have hfloats : report.floats = [0.0] := by
    have hdebt : report.metrics.technicalDebt = 0.0 := by decide +kernel
    rw [← hdebt]
    rfl
  have hzero : Json.Survives 0.0 := Json.survives_of_value (by decide +kernel) rfl
  refine ⟨hreports.status, hreports.back ?_⟩
  rw [hfloats, List.forall_mem_singleton]
  exact fun _ => hzero

end Invocation

end CodeReview
