import CodeReview.Proofs.Gateway

/-!
The two ways to ask for a review: over the web, or with a single event. They ask the same questions
and give the same answers, except about a body in which something follows the request: there the
gateway answers the request, and the event is refused.
-/

namespace CodeReview.Surfaces

open Json (Yields Spaces)

/-! ### What is sent -/

/-- A web request for a review, with the text as its JSON body. -/
structure Posts (r : Http.Request) (body : String) : Prop where
  method : r.method = "POST"
  path : r.path = "/api/analyze"
  saysJson : Gateway.saysJson r = true
  content : r.body = Text.bytes body
  fits : (Text.bytes body).length ≤ Gateway.bodyLimit

theorem Posts.asks {r : Http.Request} {body : String} (h : Posts r body) : Gateway.Asks r :=
  ⟨h.method, h.path⟩

/-- The event with the text as its body. -/
def posted (body : String) : Invocation.Event :=
  ⟨"POST", some body⟩

/-- The body starts with the request, and this comes after it. -/
def Begins (body : String) (request : Request) (rest : Json.Bytes) : Prop :=
  Yields (Request.shape.reader Json.maxDepth (Text.bytes body)) request rest

theorem Begins.unique {body : String} {request request' : Request} {rest rest' : Json.Bytes}
    (h : Begins body request rest) (h' : Begins body request' rest') : request = request' := by
  obtain ⟨hshort, hread⟩ := h
  obtain ⟨hshort', hread'⟩ := h'
  rw [hread] at hread'
  cases hread'
  rfl

/-- More than blanks comes after the request at the start of the body. -/
def RunsOver (body : String) : Prop :=
  ∃ request rest, Begins body request rest ∧ ¬ Spaces rest

/-! ### What is answered -/

/-- The reports are the same, but for the time that they took. -/
def SameButTime (r r' : Report) : Prop :=
  r' = { r with processingTime := r'.processingTime }

/-- The responses have the same status, and when all went well they hold the same report. -/
structure SameAnswer (g : Http.Response) (i : Invocation.Response) : Prop where
  status : g.status = i.status
  report : g.status = 200 → ∃ r r' : Report, SameButTime r r' ∧
    g.body = Json.compact r.toJson ∧ i.body = Json.compact r'.toJson

/-- Both surfaces ask the model the same, and answer the same whatever the model does. Where a
request is found in the body but lacks something, both refuse it with the same words. -/
structure Agree (body : String) (g : Course String Reaction Http.Response)
    (i : Course String Reaction Invocation.Response) : Prop where
  questions : ∀ m m' : String → Reaction, (∀ q, (m q).value = (m' q).value) →
    g.questions m = i.questions m'
  answers : ∀ m m' : String → Reaction, (∀ q, (m q).value = (m' q).value) →
    SameAnswer (g.run m) (i.run m')
  refusals : ∀ request rest, Begins body request rest → request.Incomplete →
    ∀ m m' : String → Reaction, (g.run m).body = (i.run m').body

/-! ### Each surface by itself -/

section Surfaces

variable (origins : List String) (reviewer : Reviewer) (now : String) {r : Http.Request}
  {body : String} {request : Request} {rest : Json.Bytes}

theorem extract_eq (h : Posts r body) :
    Gateway.extract r =
      (Json.readStart Request.shape.reader (Text.bytes body)).mapError Gateway.refusalText := by
  have hfits := h.fits
  rw [← h.content] at hfits
  rw [Gateway.extract, h.saysJson, if_neg (by decide), if_neg (Nat.not_lt.mpr hfits), h.content]

/-- The gateway answers the request at the start of a body. -/
theorem gateway_begins (h : Posts r body) (hbegins : Begins body request rest) :
    Gateway.handle origins reviewer now r =
      (reviewer.analyze request).map fun outcome =>
        (Gateway.ofOutcome outcome).withHeaders ((Cors.Policy.ofOrigins origins).headers r) := by
  have hread : Json.readStart Request.shape.reader (Text.bytes body) = .ok request :=
    Json.readStart_eq_ok_iff.mpr ⟨rest, hbegins⟩
  rw [Gateway.handle_asks origins reviewer now h.asks, Gateway.analyze, extract_eq h, hread]
  exact Course.map_map ..

theorem gateway_refuses (h : Posts r body)
    (hbegins : ∀ request rest, ¬ Begins body request rest) :
    ∃ reason, Gateway.handle origins reviewer now r =
      .done ((Gateway.ofError (.badRequest (unreadableBody reason))).withHeaders
        ((Cors.Policy.ofOrigins origins).headers r)) := by
  cases hread : Json.readStart Request.shape.reader (Text.bytes body) with
  | ok request =>
      obtain ⟨rest, hyields⟩ := Json.readStart_eq_ok_iff.mp hread
      exact absurd hyields (hbegins request rest)
  | error refusal =>
      refine ⟨Gateway.refusalText refusal, ?_⟩
      rw [Gateway.handle_asks origins reviewer now h.asks, Gateway.analyze, extract_eq h, hread]
      rfl

/-- An event is handled by the reader of its body. -/
theorem event_eq :
    Invocation.handle reviewer (posted body) = Invocation.handleBody reviewer body :=
  Invocation.handle_post reviewer rfl

theorem event_accepts (hbegins : Begins body request rest) (hrest : Spaces rest) :
    Invocation.handle reviewer (posted body) =
      (reviewer.analyze request).map Invocation.Response.ofOutcome := by
  have hread : Json.readText Request.shape.reader body = .ok request :=
    Json.read_eq_ok_iff.mpr ⟨rest, hbegins, hrest⟩
  rw [event_eq, Invocation.handleBody, hread]

theorem event_refuses (hbegins : ∀ request rest, Begins body request rest → ¬ Spaces rest) :
    ∃ reason, Invocation.handle reviewer (posted body) =
      .done (.ofError 400 (unreadableBody reason)) := by
  cases hread : Json.readText Request.shape.reader body with
  | ok request =>
      obtain ⟨rest, hyields, hrest⟩ := Json.read_eq_ok_iff.mp hread
      exact absurd hrest (hbegins request rest hyields)
  | error refusal =>
      refine ⟨refusal.message, ?_⟩
      rw [event_eq, Invocation.handleBody, hread]

theorem readText_runsOver (hbegins : Begins body request rest) (hrest : ¬ Spaces rest) :
    ∃ refusal, Json.readText Request.shape.reader body = .error refusal ∧
      refusal.cause = .trailingCharacters := by
  obtain ⟨hshort, hread⟩ := hbegins
  cases hnext : Json.next rest with
  | none => exact absurd (Json.next_eq_none_iff.mp hnext) hrest
  | some q =>
      refine ⟨Json.Fault.refusal (Text.bytes body) (.before .trailingCharacters q.rest), ?_, rfl⟩
      simp only [Json.readText, Json.read, hread, hnext, bind, Except.bind, Except.mapError]

/-- An event with more text after its request is refused because of this text. -/
theorem event_runsOver (hbegins : Begins body request rest) (hrest : ¬ Spaces rest) :
    ∃ place, Invocation.handle reviewer (posted body) =
      .done (.ofError 400 (unreadableBody ("trailing characters" ++ place))) := by
  obtain ⟨refusal, hread, hcause⟩ := readText_runsOver hbegins hrest
  have htext : refusal.cause.message = "trailing characters" := by
    rw [hcause]
    rfl
  refine ⟨" at line " ++ (toString refusal.position.line ++
    (" column " ++ toString refusal.position.column)), ?_⟩
  rw [event_eq, Invocation.handleBody, hread]
  dsimp only
  rw [Json.Refusal.message, htext, String.append_assoc, String.append_assoc, String.append_assoc]

end Surfaces

/-! ### Both surfaces -/

/-- How an analysis ends, but for the time that it took. -/
inductive Alike : Outcome → Outcome → Prop where
  | report {r r' : Report} (h : SameButTime r r') : Alike (.report r) (.report r')
  | refused (e : AnalysisError) : Alike (.refused e) (.refused e)
  | crashed : Alike .crashed .crashed

/-- What a model does decides about the outcome, and not when it does it. -/
theorem alike_conclude (reviewer : Reviewer) (job : Job) {a b : Reaction}
    (h : a.value = b.value) : Alike (reviewer.conclude job a) (reviewer.conclude job b) := by
  obtain ⟨answer, elapsed⟩ := a
  obtain ⟨answer', elapsed'⟩ := b
  obtain rfl : answer = answer' := h
  cases answer with
  | reply text => exact .report rfl
  | failure chain => exact .report rfl
  | silence => exact .report rfl
  | crash => exact .crashed

theorem alike_analyze (reviewer : Reviewer) (request : Request) {m m' : String → Reaction}
    (h : ∀ q, (m q).value = (m' q).value) :
    Alike ((reviewer.analyze request).run m) ((reviewer.analyze request).run m') := by
  by_cases hrequest : request.Incomplete
  · rw [reviewer.analyze_of_incomplete hrequest]
    exact .refused _
  · obtain ⟨code, language, -, -, hcourse⟩ := reviewer.analyze_of_complete hrequest
    rw [hcourse]
    exact alike_conclude reviewer _ (h _)

/-- A model is asked the same, whatever it does. -/
theorem questions_analyze_eq (reviewer : Reviewer) (request : Request) (m m' : String → Reaction) :
    (reviewer.analyze request).questions m = (reviewer.analyze request).questions m' := by
  by_cases hrequest : request.Incomplete
  · rw [reviewer.analyze_of_incomplete hrequest]
    rfl
  · obtain ⟨code, language, -, -, hcourse⟩ := reviewer.analyze_of_complete hrequest
    rw [hcourse]
    rfl

/-- The two surfaces tell the same about outcomes that are alike. -/
theorem sameAnswer_of_alike {o o' : Outcome} (h : Alike o o') (added : List (String × String)) :
    SameAnswer ((Gateway.ofOutcome o).withHeaders added) (Invocation.Response.ofOutcome o') := by
  cases h with
  | @report r r' h => exact ⟨rfl, fun _ => ⟨r, r', h, rfl, rfl⟩⟩
  | refused e => cases e <;> exact ⟨rfl, nofun⟩
  | crashed => exact ⟨rfl, nofun⟩

theorem agree_of_whole {origins : List String} {reviewer : Reviewer} {now : String}
    {r : Http.Request} {body : String} {request : Request} {rest : Json.Bytes} (h : Posts r body)
    (hbegins : Begins body request rest) (hrest : Spaces rest) :
    Agree body (Gateway.handle origins reviewer now r)
      (Invocation.handle reviewer (posted body)) := by
  rw [gateway_begins origins reviewer now h hbegins, event_accepts reviewer hbegins hrest]
  constructor
  · intro m m' _
    rw [Course.questions_map, Course.questions_map]
    exact questions_analyze_eq reviewer request m m'
  · intro m m' hm
    rw [Course.run_map, Course.run_map]
    exact sameAnswer_of_alike (alike_analyze reviewer request hm) _
  · intro request' rest' hbegins' hrequest m m'
    obtain rfl := hbegins.unique hbegins'
    rw [reviewer.analyze_of_incomplete hrequest]
    rfl

theorem agree_of_nothing {origins : List String} {reviewer : Reviewer} {now : String}
    {r : Http.Request} {body : String} (h : Posts r body)
    (hbegins : ∀ request rest, ¬ Begins body request rest) :
    Agree body (Gateway.handle origins reviewer now r)
      (Invocation.handle reviewer (posted body)) := by
  obtain ⟨reason, hgateway⟩ := gateway_refuses origins reviewer now h hbegins
  obtain ⟨reason', hevent⟩ := event_refuses reviewer fun request rest hb _ =>
    hbegins request rest hb
  rw [hgateway, hevent]
  constructor
  · exact fun m m' _ => rfl
  · exact fun m m' _ => ⟨rfl, nofun⟩
  · exact fun request rest hb => absurd hb (hbegins request rest)

/-- Different errors are told in different bodies. -/
theorem errorBody_injective {a b : String} (h : errorBody a = errorBody b) : a = b := by
  have hsame := readText_errorBody a
  rw [h, readText_errorBody b] at hsame
  simpa using hsame.symm

theorem head_unreadableBody (reason : String) :
    (unreadableBody reason).toList.head? = some 'I' := by
  have hlist : (unreadableBody reason).toList = "Invalid request body: ".toList ++ reason.toList :=
    String.toList_append
  have hfirst : "Invalid request body: ".toList.head? = some 'I' := by decide +kernel
  rw [hlist, List.head?_append]
  exact congrArg (Option.or · reason.toList.head?) hfirst

theorem not_agree_of_runsOver {origins : List String} {reviewer : Reviewer} {now : String}
    {r : Http.Request} {body : String} (h : Posts r body) (hover : RunsOver body) :
    ¬ Agree body (Gateway.handle origins reviewer now r)
      (Invocation.handle reviewer (posted body)) := by
  obtain ⟨request, rest, hbegins, hrest⟩ := hover
  obtain ⟨place, hevent⟩ := event_runsOver reviewer hbegins hrest
  rw [gateway_begins origins reviewer now h hbegins, hevent]
  intro hagree
  -- A request that lacks something is refused by both, but not with the same words.
  by_cases hrequest : request.Incomplete
  · have hbody := hagree.refusals request rest hbegins hrequest (fun _ => ⟨.silence, 0⟩)
      fun _ => ⟨.silence, 0⟩
    rw [reviewer.analyze_of_incomplete hrequest] at hbody
    have hmessage := errorBody_injective hbody
    change Request.missingFields = unreadableBody _ at hmessage
    have hfirst := head_unreadableBody ("trailing characters" ++ place)
    rw [← hmessage] at hfirst
    exact absurd hfirst (by decide +kernel)
  -- For a whole request the gateway asks a question, and the event does not.
  · obtain ⟨code, language, -, -, hcourse⟩ := reviewer.analyze_of_complete hrequest
    have hquestions := hagree.questions (fun _ => ⟨.silence, 0⟩) _ fun _ => rfl
    rw [Course.questions_map, hcourse] at hquestions
    cases hquestions

/-- The surfaces agree about a body exactly when nothing but blanks comes after the request in it.
Otherwise the event is refused because of what comes there, and no model is asked; the gateway asks
and answers as for the request alone. -/
theorem agree_iff (origins : List String) (reviewer : Reviewer) (now : String)
    {r : Http.Request} {body : String} (h : Posts r body) :
    (Agree body (Gateway.handle origins reviewer now r)
      (Invocation.handle reviewer (posted body)) ↔ ¬ RunsOver body) ∧
    ∀ request rest, Begins body request rest → ¬ Spaces rest →
      (∃ place, Invocation.handle reviewer (posted body) =
        .done (.ofError 400 (unreadableBody ("trailing characters" ++ place)))) ∧
      Gateway.handle origins reviewer now r =
        (reviewer.analyze request).map fun outcome =>
          (Gateway.ofOutcome outcome).withHeaders ((Cors.Policy.ofOrigins origins).headers r) := by
  refine ⟨⟨fun hagree hover => not_agree_of_runsOver h hover hagree, fun hover => ?_⟩,
    fun request rest hbegins hrest => ⟨event_runsOver reviewer hbegins hrest,
      gateway_begins origins reviewer now h hbegins⟩⟩
  by_cases hnothing : ∀ request rest, ¬ Begins body request rest
  · exact agree_of_nothing h hnothing
  · simp only [not_forall, not_not] at hnothing
    obtain ⟨request, rest, hbegins⟩ := hnothing
    have hrest : Spaces rest := by
      by_contra hrest
      exact hover ⟨request, rest, hbegins, hrest⟩
    exact agree_of_whole h hbegins hrest

/-- A request with an empty object after it. -/
theorem agree_iff_emptyObject :
    let body := "\x7b\"code\":\"x\",\"language\":\"go\"\x7d\x7b\x7d"
    let r : Http.Request :=
      ⟨"POST", "/api/analyze", [("content-type", "application/json")], Text.bytes body⟩
    let reviewer : Reviewer := ⟨"gemini-pro", 30000⟩
    Posts r body ∧ RunsOver body ∧
      ¬ Agree body (Gateway.handle [] reviewer "" r)
        (Invocation.handle reviewer (posted body)) := by
  intro body r reviewer
  have hposts : Posts r body :=
    ⟨rfl, by decide, by decide +kernel, rfl, by decide +kernel⟩
  have hrest : (match Request.shape.reader Json.maxDepth (Text.bytes body) with
      | .ok p => decide (p.rest = Text.bytes "\x7b\x7d")
      | .error _ => false) = true := by
    decide +kernel
  have hover : RunsOver body := by
    cases hread : Request.shape.reader Json.maxDepth (Text.bytes body) with
    | error fault =>
        rw [hread] at hrest
        cases hrest
    | ok p =>
        rw [hread] at hrest
        refine ⟨p.value, p.rest, ⟨p.shorter, hread⟩, ?_⟩
        rw [of_decide_eq_true hrest, Text.bytes_eq]
        exact fun h => absurd (h (Json.byte '\x7b') (by decide)) (by decide)
  exact ⟨hposts, hover, fun hagree => (agree_iff [] reviewer "" hposts).1.mp hagree hover⟩

end CodeReview.Surfaces
