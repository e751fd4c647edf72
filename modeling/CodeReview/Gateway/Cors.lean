import CodeReview.Gateway.Http
import CodeReview.Net.Header

/-!
Which web sites may use the gateway. A browser names the site in the origin header of a request, and
reads from the headers of the response whether the site is let in.
-/

namespace CodeReview.Cors

open Http (Request Response)

inductive Policy where
  /-- Every site is let in. -/
  | anyone
  | only (origins : List String)
deriving DecidableEq, Repr

/-- The policy that lists these values. `*` is no site, so it may not be one of them. -/
def Policy.list? (values : List String) : Option Policy :=
  if "*" ∈ values then none else some (.only values)

/-- The policy for a list of sites, if it can be made. A `*` among them lets everyone in; entries
that cannot stand in a header are ignored. -/
def Policy.ofOrigins? (origins : List String) : Option Policy :=
  if "*" ∈ origins then some .anyone else list? (origins.filter Net.isHeaderValue)

/-- No `*` comes as far as the list, so every list of sites has a policy. -/
theorem Policy.isSome_ofOrigins? (origins : List String) : (ofOrigins? origins).isSome = true := by
  rw [ofOrigins?]
  split
  · rfl
  · rename_i h
    rw [list?, if_neg fun hmem => h (List.mem_filter.mp hmem).1]
    rfl

/-- The policy for a list of sites. -/
def Policy.ofOrigins (origins : List String) : Policy :=
  (ofOrigins? origins).get (isSome_ofOrigins? origins)

/-- The value of the header that lets a site in. -/
def Policy.allowOrigin? (policy : Policy) (origin : Option String) : Option String :=
  match policy with
  | .anyone => some "*"
  | .only origins => origin.filter fun o => o ∈ origins

/-- What the answer depends on, so that it is not kept for other sites. -/
def vary : String × String :=
  ("vary", "origin, access-control-request-method, access-control-request-headers")

/-- What is let in beside the site itself. A request that only asks is told about methods and
headers. -/
def Policy.details (policy : Policy) (asks : Bool) : List (String × String) :=
  match policy, asks with
  | .anyone, true =>
    [("access-control-allow-methods", "*"), ("access-control-allow-headers", "*")]
  | .anyone, false => [("access-control-expose-headers", "*")]
  | .only _, true =>
    [("access-control-allow-methods", "GET,POST,OPTIONS"),
     ("access-control-allow-headers", "content-type")]
  | .only _, false => []

/-- All headers that the policy adds to the response to a request. -/
def Policy.headers (policy : Policy) (r : Request) : List (String × String) :=
  (match policy.allowOrigin? (r.header? "origin") with
   | some value => [("access-control-allow-origin", value)]
   | none => []) ++
  policy.details (r.method = "OPTIONS") ++ [vary]

end CodeReview.Cors
