import CodeReview.Json.Reader
import CodeReview.Text.Slice

/-!
The reply of a model, from which the JSON object is taken out. Models write around it: the object is
the text from the first opening brace to the last closing one. A reply without a readable object
reports nothing.
-/

namespace CodeReview.Reply

/-- The place of the first `{` and the place after the last `}`, which must not come before it. -/
def bounds? (b : List UInt8) : Option (Nat × Nat) :=
  (Text.find? '{' b).bind fun start =>
    (Text.rfind? '}' b).bind fun last =>
      if last < start then none else some (start, last + 1)

/-- The text from the first `{` to the last `}`. -/
def span? (text : String) : Option String :=
  (bounds? (Text.bytes text)).bind fun bounds => Text.slice? text bounds.1 bounds.2

/-- The entries of a reply as the model wrote them. -/
structure Entries where
  issues : List Json
  suggestions : List Json

def Entries.none : Entries := ⟨[], []⟩

def Entries.isEmpty (e : Entries) : Bool :=
  e.issues.isEmpty && e.suggestions.isEmpty

/-- The items of a member that is a list; other members have none. -/
def itemsOf (key : String) (v : Json) : List Json :=
  ((v.field? key).bind Json.list?).getD []

/-- The entries of a JSON text. Anything but an object has none. -/
def decode (span : String) : Entries :=
  match Json.readText .value span with
  | .ok v => ⟨itemsOf "issues" v, itemsOf "suggestions" v⟩
  | .error _ => .none

/-- The entries of a reply. -/
def entries (text : String) : Entries :=
  match span? text with
  | some span => decode span
  | none => .none

end CodeReview.Reply
