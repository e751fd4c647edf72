import CodeReview.Gateway.Router
import CodeReview.Proofs.Invocation

/-!
How every web request for a review ends. Whatever is wrong with the request, and wherever it shows,
the status is 400 and no model is asked. Whatever breaks inside, the response is the same one with
the status 500. Everything else is a report.
-/

namespace CodeReview.Gateway

/-- A web request for a review. Nothing is said about its headers and its body. -/
structure Asks (r : Http.Request) : Prop where
  method : r.method = "POST"
  path : r.path = "/api/analyze"

/-- No request for a review is found in the web request, or one that lacks something. -/
def Rejects (r : Http.Request) : Prop :=
  (∃ reason, extract r = .error reason) ∨ ∃ request, extract r = .ok request ∧ request.Incomplete

/-! ### Courses -/

section Courses

variable (origins : List String) (reviewer : Reviewer) (now : String) {r : Http.Request}
  {request : Request}

/-- Web requests for a review lead to the review, behind the headers that are added. -/
theorem handle_asks (h : Asks r) :
    handle origins reviewer now r =
      (analyze reviewer r).map
        (Http.Response.withHeaders ((Cors.Policy.ofOrigins origins).headers r)) := by
  have hroute : Route.ofPath? r.path = some .analyze := by
    rw [h.path]
    decide
  have hmethod : r.method ≠ "OPTIONS" := by
    rw [h.method]
    decide
  rw [handle, answer, hroute, if_neg hmethod]
  dsimp only
  rw [if_pos h.method]

theorem handle_rejected (h : Asks r) {reason : String} (hextract : extract r = .error reason) :
    handle origins reviewer now r =
      .done ((ofError (.badRequest (unreadableBody reason))).withHeaders
        ((Cors.Policy.ofOrigins origins).headers r)) := by
  rw [handle_asks origins reviewer now h, analyze, hextract]
  rfl

theorem handle_incomplete (h : Asks r) (hextract : extract r = .ok request)
    (hrequest : request.Incomplete) :
    handle origins reviewer now r =
      .done ((ofError (.badRequest Request.missingFields)).withHeaders
        ((Cors.Policy.ofOrigins origins).headers r)) := by
  rw [handle_asks origins reviewer now h, analyze, hextract]
  dsimp only
  rw [reviewer.analyze_of_incomplete hrequest]
  rfl

/-- A whole request is answered after one question, whatever the model does. -/
theorem handle_complete (h : Asks r) (hextract : extract r = .ok request)
    (hrequest : ¬ request.Incomplete) :
    ∃ prompt job, reviewer.analyze request = .once prompt (reviewer.conclude job) ∧
      handle origins reviewer now r =
        .once prompt fun reaction => (ofOutcome (reviewer.conclude job reaction)).withHeaders
          ((Cors.Policy.ofOrigins origins).headers r) := by
  obtain ⟨code, language, -, -, hcourse⟩ := reviewer.analyze_of_complete hrequest
  refine ⟨_, _, hcourse, ?_⟩
  rw [handle_asks origins reviewer now h, analyze, hextract]
  dsimp only
  rw [hcourse]
  rfl

end Courses

/-! ### Responses -/

/-- The response has this status, and its body is the object that tells this message, which is read
back from it. -/
structure Refuses (response : Http.Response) (status : UInt16) (message : String) : Prop where
  status : response.status = status
  body : response.body = errorBody message
  back : Json.readText .value response.body = .ok (.object [("error", .text message)])

theorem refuses_ofError (e : GatewayError) (added : List (String × String)) :
    Refuses ((ofError e).withHeaders added) e.status e.publicMessage :=
  ⟨rfl, rfl, readText_errorBody e.publicMessage⟩

/-- Nothing of an error inside of the gateway is told. -/
theorem ofError_eq_of_status {e : GatewayError} (h : e.status = 500) (detail : String) :
    ofError e = ofError (.internal detail) := by
  cases e with
  | badRequest message =>
      have hstatus : (400 : UInt16) = 500 := h
      exact absurd hstatus (by decide)
  | invalidConfig message => rfl
  | io message => rfl
  | serialization message => rfl
  | internal message => rfl

theorem ofOutcome_eq_of_status {outcome : Outcome} (h : (ofOutcome outcome).status = 500)
    (detail : String) : ofOutcome outcome = ofError (.internal detail) := by
  cases outcome with
  | report r =>
      have hstatus : (200 : UInt16) = 500 := h
      exact absurd hstatus (by decide)
  | refused e => exact ofError_eq_of_status h detail
  | crashed => rfl

theorem run_analyze_eq_of_status {reviewer : Reviewer} {r : Http.Request}
    {model : String → Reaction} (h : ((analyze reviewer r).run model).status = 500)
    (detail : String) : (analyze reviewer r).run model = ofError (.internal detail) := by
  rw [analyze] at h ⊢
  cases hextract : extract r with
  | error reason =>
      rw [hextract] at h
      exact ofError_eq_of_status (e := .badRequest (unreadableBody reason)) h detail
  | ok request =>
      rw [hextract] at h
      dsimp only at h ⊢
      rw [Course.run_map] at h ⊢
      exact ofOutcome_eq_of_status h detail

/-! ### Runs -/

/-- How a web request for a review is answered in a course: without a question when the request is
not found or lacks something, and after one question otherwise. -/
structure Answers (reviewer : Reviewer) (r : Http.Request) (model : String → Reaction)
    (course : Course String Reaction Http.Response) : Prop where
  rejected : ∀ reason, extract r = .error reason →
    course.questions model = [] ∧
      Refuses (course.run model) 400 ("Invalid request body: " ++ reason)
  incomplete : ∀ request, extract r = .ok request → request.Incomplete →
    course.questions model = [] ∧ Refuses (course.run model) 400 "Code and language are required"
  complete : ∀ request, extract r = .ok request → ¬ request.Incomplete →
    ∃ prompt, course.questions model = [prompt] ∧
      ((model prompt).value = .crash → Refuses (course.run model) 500 "Analysis failed") ∧
      ((model prompt).value ≠ .crash → ∃ report,
        (reviewer.analyze request).run model = .report report ∧ (course.run model).status = 200 ∧
          (course.run model).body = Json.compact report.toJson)

theorem answers_handle (origins : List String) (reviewer : Reviewer) (now : String)
    {r : Http.Request} (h : Asks r) (model : String → Reaction) :
    Answers reviewer r model (handle origins reviewer now r) where
  rejected := by
    intro reason hextract
    rw [handle_rejected origins reviewer now h hextract]
    exact ⟨rfl, refuses_ofError (.badRequest (unreadableBody reason)) _⟩
  incomplete := by
    intro request hextract hrequest
    rw [handle_incomplete origins reviewer now h hextract hrequest]
    exact ⟨rfl, refuses_ofError (.badRequest Request.missingFields) _⟩
  complete := by
    intro request hextract hrequest
    obtain ⟨prompt, job, hcourse, hhandle⟩ :=
      handle_complete origins reviewer now h hextract hrequest
    rw [hhandle, hcourse]
    refine ⟨prompt, rfl, fun hcrash => ?_, fun halive => ?_⟩
    · have hconclude : reviewer.conclude job (model prompt) = .crashed := by
        rw [Reviewer.conclude, hcrash]
      rw [Course.run_once, hconclude]
      exact refuses_ofError (.internal _) _
    · obtain ⟨report, hreport, -, -⟩ := reviewer.conclude_report job halive
      refine ⟨report, hreport, ?_⟩
      rw [Course.run_once, hreport]
      exact ⟨rfl, rfl⟩

/-- The three ways in which a web request for a review is answered, by status. -/
inductive Ends (r : Http.Request) (model : String → Reaction)
    (course : Course String Reaction Http.Response) : Prop where
  | rejected (why : Rejects r) (silent : course.questions model = [])
    (status : (course.run model).status = 400)
  | crashed {prompt : String} (fine : ¬ Rejects r) (asked : course.questions model = [prompt])
    (crash : (model prompt).value = .crash) (status : (course.run model).status = 500)
  | reported {prompt : String} (fine : ¬ Rejects r) (asked : course.questions model = [prompt])
    (alive : (model prompt).value ≠ .crash) (status : (course.run model).status = 200)

section Ends

variable {reviewer : Reviewer} {r : Http.Request} {model : String → Reaction}
  {course : Course String Reaction Http.Response}

theorem not_rejects {request : Request} (hextract : extract r = .ok request)
    (hrequest : ¬ request.Incomplete) : ¬ Rejects r := by
  rintro (⟨reason, hreason⟩ | ⟨request', hextract', hrequest'⟩)
  · rw [hextract] at hreason
    cases hreason
  · rw [hextract] at hextract'
    cases hextract'
    exact hrequest hrequest'

theorem Answers.ends (h : Answers reviewer r model course) : Ends r model course := by
  cases hextract : extract r with
  | error reason =>
      obtain ⟨hsilent, hrefuses⟩ := h.rejected reason hextract
      exact .rejected (.inl ⟨reason, hextract⟩) hsilent hrefuses.status
  | ok request =>
      by_cases hrequest : request.Incomplete
      · obtain ⟨hsilent, hrefuses⟩ := h.incomplete request hextract hrequest
        exact .rejected (.inr ⟨request, hextract, hrequest⟩) hsilent hrefuses.status
      · obtain ⟨prompt, hasked, hcrashed, halive⟩ := h.complete request hextract hrequest
        have hfine := not_rejects hextract hrequest
        by_cases hcrash : (model prompt).value = .crash
        · exact .crashed hfine hasked hcrash (hcrashed hcrash).status
        · obtain ⟨report, -, hstatus, -⟩ := halive hcrash
          exact .reported hfine hasked hcrash hstatus

theorem Ends.status_cases (h : Ends r model course) :
    (course.run model).status = 200 ∨ (course.run model).status = 400 ∨
      (course.run model).status = 500 := by
  cases h with
  | rejected _ _ status => exact .inr (.inl status)
  | crashed _ _ _ status => exact .inr (.inr status)
  | reported _ _ _ status => exact .inl status

theorem Ends.status_eq_400_iff (h : Ends r model course) :
    (course.run model).status = 400 ↔ Rejects r := by
  cases h with
  | rejected why _ status => simp [why, status]
  | crashed fine _ _ status => simp [fine, status]
  | reported fine _ _ status => simp [fine, status]

theorem Ends.questions_of_rejects (h : Ends r model course) (hrejects : Rejects r) :
    course.questions model = [] := by
  cases h with
  | rejected _ silent _ => exact silent
  | crashed fine _ _ _ => exact absurd hrejects fine
  | reported fine _ _ _ => exact absurd hrejects fine

theorem Ends.status_eq_500_iff (h : Ends r model course) :
    (course.run model).status = 500 ↔
      ∃ prompt, course.questions model = [prompt] ∧ (model prompt).value = .crash := by
  cases h with
  | rejected _ silent status => simp [silent, status]
  | crashed _ asked crash status => simp [asked, crash, status]
  | reported _ asked alive status => simp [asked, alive, status]

end Ends

/-- Every web request for a review is answered with one of three statuses. It is 400 exactly when
the request is not found in the body or lacks something, and then no model is asked; it is 500
exactly when the one model that is asked breaks down. All responses with the status 500 are the
same, whatever is wrong inside. -/
theorem handle_posted_ends (origins : List String) (reviewer : Reviewer) (now : String)
    {r : Http.Request} (h : Asks r) (model : String → Reaction) :
    let course := handle origins reviewer now r
    let response := course.run model
    let added := (Cors.Policy.ofOrigins origins).headers r
    Answers reviewer r model course ∧
    (response.status = 200 ∨ response.status = 400 ∨ response.status = 500) ∧
    (response.status = 400 ↔ Rejects r) ∧ (Rejects r → course.questions model = []) ∧
    (response.status = 500 ↔
      ∃ prompt, course.questions model = [prompt] ∧ (model prompt).value = .crash) ∧
    (response.status = 500 →
      (∀ e : GatewayError, e.status = 500 → response = (ofError e).withHeaders added) ∧
      ∀ outcome, (ofOutcome outcome).status = 500 →
        response = (ofOutcome outcome).withHeaders added) := by
  dsimp only
  have hanswers := answers_handle origins reviewer now h model
  have hends := hanswers.ends
  refine ⟨hanswers, hends.status_cases, hends.status_eq_400_iff, hends.questions_of_rejects,
    hends.status_eq_500_iff, fun hstatus => ?_⟩
  rw [handle_asks origins reviewer now h, Course.run_map] at hstatus ⊢
  have hinternal := run_analyze_eq_of_status hstatus "Analysis failed"
  constructor
  · intro e he
    rw [hinternal, ofError_eq_of_status he]
  · intro outcome houtcome
    rw [hinternal, ofOutcome_eq_of_status houtcome]

/-- A request whose body is not even UTF-8, and one about which the model breaks down. -/
theorem handle_posted_ends_crash :
    let reviewer : Reviewer := ⟨"gemini-pro", 30000⟩
    let body := "\x7b\"code\":\"x = 1\",\"language\":\"python\"\x7d"
    let r : Http.Request :=
      ⟨"POST", "/api/analyze?verbose", [("Content-Type", "application/json; charset=utf-8")],
        Text.bytes body⟩
    let broken : Http.Request := { r with body := [0xFF] }
    let course := handle ["*"] reviewer "" r
    let model : String → Reaction := fun _ => ⟨.crash, 1⟩
    let added := (Cors.Policy.ofOrigins ["*"]).headers r
    Asks r ∧ Asks broken ∧ ((handle ["*"] reviewer "" broken).run model).status = 400 ∧
      (course.run model).status = 500 ∧
      ∀ text, course.run model = (ofOutcome (.refused (.internal text))).withHeaders added := by
  intro reviewer body r broken course model added
  have hasks : Asks r := ⟨rfl, by decide⟩
  have hbroken : Asks broken := ⟨rfl, by decide⟩
  have hrejects : Rejects broken := by
    cases hextract : extract broken with
    | error reason => exact .inl ⟨reason, hextract⟩
    | ok request =>
        have hnone : (extract broken).toOption.isNone = true := by decide +kernel
        rw [hextract] at hnone
        cases hnone
  let request : Request := { code := some "x = 1", language := some "python" }
  have hextract : extract r = .ok request := by
    have hsome : (extract r).toOption = some request := by decide +kernel
    exact Json.ok_of_toOption hsome
  have hcomplete : ¬ request.Incomplete := by
    rw [Request.Incomplete, not_or, Request.not_lacking_iff, Request.not_lacking_iff]
    exact ⟨⟨_, rfl, by decide⟩, _, rfl, by decide⟩
  obtain ⟨hanswers, -, -, -, -, hsame⟩ := handle_posted_ends ["*"] reviewer "" hasks model
  obtain ⟨-, -, hstatus, -⟩ := handle_posted_ends ["*"] reviewer "" hbroken model
  obtain ⟨prompt, -, hcrashed, -⟩ := hanswers.complete request hextract hcomplete
  have hbreaks := hcrashed rfl
  exact ⟨hasks, hbroken, hstatus.mpr hrejects, hbreaks.status,
    fun text => (hsame hbreaks.status).2 (.refused (.internal text)) rfl⟩

end CodeReview.Gateway
