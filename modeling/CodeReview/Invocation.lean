import CodeReview.Analysis
import CodeReview.Json.Printer

/-!
Single invocations: one event in, one response out, without a server. The event has a method and a
body, and the response has a status, headers and a body. A crash of the model ends in a response
like everything else.
-/

namespace CodeReview

open Json (Shape member)

/-- The JSON text that reports an error. -/
def errorBody (message : String) : String :=
  Json.compact (.object [("error", .text message)])

/-- What is put before the reason why a body cannot be read. -/
def unreadableBody (reason : String) : String :=
  "Invalid request body: " ++ reason

namespace Invocation

structure Event where
  method : String
  body : Option String
deriving DecidableEq, Repr

namespace Event

def toJson (e : Event) : Json :=
  .object [("httpMethod", .text e.method), ("body", Json.orNull (e.body.map .text))]

def shape : Shape Event where
  name := "InvocationEvent"
  blank := ⟨"", none⟩
  members :=
    [member "httpMethod" .required .text fun s e => { e with method := s },
     member "body" .defaulted (.optional .text) fun s e => { e with body := s }]

end Event

structure Response where
  status : UInt16
  /-- Sorted by name. -/
  headers : List (String × String)
  body : String
deriving DecidableEq, Repr

namespace Response

def toJson (r : Response) : Json :=
  .object
    [("statusCode", .ofNat r.status.toNat),
     ("headers", .object (r.headers.map fun h => (h.1, .text h.2))), ("body", .text r.body)]

def shape : Shape Response where
  name := "InvocationResponse"
  blank := ⟨0, [], ""⟩
  members :=
    [member "statusCode" .required .port fun n r => { r with status := n.toUInt16 },
     member "headers" .required .table fun hs r => { r with headers := hs },
     member "body" .required .text fun s r => { r with body := s }]

/-- The headers of every response. -/
def commonHeaders : List (String × String) :=
  [("Access-Control-Allow-Headers", "Content-Type"),
   ("Access-Control-Allow-Methods", "GET, POST, OPTIONS"),
   ("Access-Control-Allow-Origin", "*"),
   ("Content-Type", "application/json")]

def ofBody (status : UInt16) (body : String) : Response :=
  ⟨status, commonHeaders, body⟩

def ofError (status : UInt16) (message : String) : Response :=
  ofBody status (errorBody message)

/-- The response that an analysis ends in. -/
def ofOutcome : Outcome → Response
  | .report r => ofBody 200 (Json.compact r.toJson)
  | .refused (.invalidRequest message) => ofError 400 message
  | .refused _ => ofError 500 "Internal server error"
  | .crashed => ofError 500 "Internal server error"

end Response

/-- The course of a request that came as JSON text. -/
def handleBody (reviewer : Reviewer) (body : String) : Course String Reaction Response :=
  match Json.readText Request.shape.reader body with
  | .error refusal => .done (.ofError 400 (unreadableBody refusal.message))
  | .ok request => (reviewer.analyze request).map Response.ofOutcome

/-- The course of an event. An event without a body is one with an empty object. -/
def handle (reviewer : Reviewer) (event : Event) : Course String Reaction Response :=
  match Text.upperAscii event.method with
  | "OPTIONS" => .done (.ofBody 200 "")
  | "POST" => handleBody reviewer (event.body.getD "\x7b\x7d")
  | _ => .done (.ofError 405 "Method not allowed")

end Invocation

end CodeReview
