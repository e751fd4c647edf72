import CodeReview.Gateway.Cors
import CodeReview.Gateway.MediaType
import CodeReview.Gateway.Settings

/-!
The gateway: which request leads where, and what is answered. One path reports that the gateway is
alive, the other one reviews code. Requests that only ask what is allowed are answered by the policy
on web sites alone.
-/

namespace CodeReview.Gateway

def version : String := "0.1.0"

inductive Route where
  | health
  | analyze
deriving DecidableEq, Repr

/-- Paths lead somewhere only as they are. -/
def Route.ofPath? (path : String) : Option Route :=
  if path = "/health" then some .health
  else if path = "/api/analyze" then some .analyze
  else none

/-- The methods of a route, as they are told to those who use another one. -/
def Route.allowed : Route → String
  | .health => "GET,HEAD"
  | .analyze => "POST"

def healthBody (now : String) : String :=
  Json.compact
    (.object [("status", .text "ok"), ("timestamp", .text now), ("version", .text version)])

/-- The longest body that is read. -/
def bodyLimit : Nat := 2097152

/-- The request says that its body is JSON. -/
def saysJson (r : Http.Request) : Bool :=
  ((r.header? "content-type").bind MediaType.ofText?).any MediaType.isJson

/-- Why a body with JSON of the wrong form, or no JSON, is refused. -/
def refusalText (r : Json.Refusal) : String :=
  (if r.cause.isAboutForm then "Failed to deserialize the JSON body into the target type: "
   else "Failed to parse the request body as JSON: ") ++ r.messageWithPath

/-- The request for a review in the body of a request, or the reason why there is none. What
follows the JSON in the body does not matter. -/
def extract (r : Http.Request) : Except String Request :=
  if !saysJson r then .error "Expected request with `Content-Type: application/json`"
  else if bodyLimit < r.body.length then
    .error "Failed to buffer the request body: length limit exceeded"
  else (Json.readStart Request.shape.reader r.body).mapError refusalText

def ofError (e : GatewayError) : Http.Response :=
  .json e.status e.body

/-- The response that an analysis ends in. -/
def ofOutcome : Outcome → Http.Response
  | .report r => .json 200 (Json.compact r.toJson)
  | .refused e => ofError (.ofAnalysis e)
  | .crashed => ofError (.internal "the analysis broke down")

/-- The course of a request for a review. -/
def analyze (reviewer : Reviewer) (r : Http.Request) : Course String Reaction Http.Response :=
  match extract r with
  | .error reason => .done (ofError (.badRequest (unreadableBody reason)))
  | .ok request => (reviewer.analyze request).map ofOutcome

/-- The response to a method that a route does not have. -/
def notAllowed (route : Route) : Http.Response :=
  (Http.Response.bare 405).withHeader "allow" route.allowed

/-- The course of a request, without the policy on web sites. `now` is the time. -/
def answer (reviewer : Reviewer) (now : String) (r : Http.Request) :
    Course String Reaction Http.Response :=
  let route := Route.ofPath? r.path
  if r.method = "OPTIONS" then
    .done ((Http.Response.bare 200).withHeaders (match route with
      | some route => [("allow", route.allowed)]
      | none => []))
  else
    match route with
    | none => .done (.bare 404)
    | some .health =>
      if r.method = "GET" then .done (.json 200 (healthBody now))
      else if r.method = "HEAD" then
        .done { Http.Response.json 200 (healthBody now) with body := "" }
      else .done (notAllowed .health)
    | some .analyze =>
      if r.method = "POST" then analyze reviewer r else .done (notAllowed .analyze)

/-- The course of a request. -/
def handle (origins : List String) (reviewer : Reviewer) (now : String) (r : Http.Request) :
    Course String Reaction Http.Response :=
  let added := (Cors.Policy.ofOrigins origins).headers r
  (answer reviewer now r).map (Http.Response.withHeaders added)

end CodeReview.Gateway
