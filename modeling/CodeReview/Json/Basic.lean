import CodeReview.Assoc
import CodeReview.Decimal.Binary

/-!
JSON values. An object keeps its members in the order in which their names first appeared; a name
that appears again keeps its place and takes the later value.
-/

namespace CodeReview

/-- A JSON number. Numbers that are written without a point and an exponent stay whole as long as
they fit into 64 bits. -/
inductive Json.Number where
  | integer (n : Int)
  | real (x : Float)

inductive Json where
  | null
  | bool (b : Bool)
  | number (n : Json.Number)
  | text (s : String)
  | list (items : List Json)
  | object (members : List (String × Json))

namespace Json

instance : Inhabited Json := ⟨.null⟩

def Number.toFloat : Number → Float
  | .integer n => Decimal.floatOfInt n
  | .real x => x

/-- The value of a member of an object. Other values have no members. -/
def field? (key : String) : Json → Option Json
  | .object members => members.lookup key
  | _ => none

def text? : Json → Option String
  | .text s => some s
  | _ => none

def list? : Json → Option (List Json)
  | .list items => some items
  | _ => none

/-- An integer as a JSON number. -/
def ofNat (n : Nat) : Json :=
  .number (.integer n)

/-- A float as a JSON number. -/
def ofFloat (x : Float) : Json :=
  .number (.real x)

/-- A list of texts. -/
def ofTexts (ss : List String) : Json :=
  .list (ss.map .text)

/-- A member that is left out when there is nothing to write. -/
def member? (key : String) (value : Option Json) : List (String × Json) :=
  match value with
  | some v => [(key, v)]
  | none => []

/-- The value, or null. -/
def orNull (value : Option Json) : Json :=
  value.getD .null

end Json

end CodeReview
