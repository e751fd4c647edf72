import CodeReview.Json.Fault
import CodeReview.Text.Blank

/-!
Requests and responses of the web, as far as the gateway looks at them.
-/

namespace CodeReview.Http

structure Request where
  method : String
  /-- The path, with a query if there is one, and perhaps with the host before it. -/
  target : String
  headers : List (String × String)
  body : Json.Bytes

structure Response where
  status : UInt16
  /-- Names in lower case. -/
  headers : List (String × String)
  body : String
deriving DecidableEq, Repr

/-- The value of the first header with a name, which is given in lower case. -/
def Request.header? (r : Request) (name : String) : Option String :=
  (r.headers.find? fun h => Text.lowerAscii h.1 = name).map Prod.snd

/-- What follows the host in an address with a scheme; other texts are left as they are. -/
def afterHost (cs : List Char) : List Char :=
  match cs.dropWhile (· ≠ ':') with
  | ':' :: '/' :: '/' :: rest => if cs.head? = some '/' then cs else rest.dropWhile (· ≠ '/')
  | _ => cs

/-- The path, without the query and the host. -/
def Request.path (r : Request) : String :=
  match afterHost (r.target.toList.takeWhile fun c => c ≠ '?' ∧ c ≠ '#') with
  | [] => "/"
  | path => String.ofList path

def Response.withHeader (name value : String) (r : Response) : Response :=
  { r with headers := r.headers ++ [(name, value)] }

def Response.withHeaders (hs : List (String × String)) (r : Response) : Response :=
  { r with headers := r.headers ++ hs }

/-- A response without a body. -/
def Response.bare (status : UInt16) : Response :=
  ⟨status, [], ""⟩

def Response.json (status : UInt16) (body : String) : Response :=
  ⟨status, [("content-type", "application/json")], body⟩

end CodeReview.Http
