import CodeReview.Decimal.Text
import CodeReview.Json.Basic
import CodeReview.Text.Quoted

/-!
JSON values as text. The compact form has no blanks; the indented form has a line for each item and
each member. A float that is not finite has no JSON form and is written as null.
-/

namespace CodeReview.Json

/-- The form of a character inside a text. Only what must be escaped is. -/
def escapeChar (c : Char) : String :=
  if c = '"' then "\\\""
  else if c = '\\' then "\\\\"
  else if c = '\n' then "\\n"
  else if c = '\r' then "\\r"
  else if c = '\t' then "\\t"
  else if c = '\x08' then "\\b"
  else if c = '\x0c' then "\\f"
  else if c.toNat < 0x10 then "\\u000" ++ Text.hexDigits c.toNat
  else if c.toNat < 0x20 then "\\u00" ++ Text.hexDigits c.toNat
  else String.singleton c

def quote (s : String) : String :=
  "\"" ++ String.join (s.toList.map escapeChar) ++ "\""

def Number.render : Number → String
  | .integer n => toString n
  | .real x => if x.isFinite then Decimal.display x else "null"

/-- What is written between the parts of a list or an object. -/
structure Layout where
  /-- Between a name and its value. -/
  colon : String
  /-- Before an item, at each depth. -/
  line : Nat → String

def Layout.compact : Layout := ⟨":", fun _ => ""⟩

/-- Two blanks for each container around a line. -/
def Layout.indented : Layout :=
  ⟨": ", fun depth => String.ofList ('\n' :: List.replicate (2 * depth) ' ')⟩

mutual

/-- The text of a value inside of so many containers, after the text that is already there. -/
def write (layout : Layout) (depth : Nat) (out : String) : Json → String
  | .null => out ++ "null"
  | .bool true => out ++ "true"
  | .bool false => out ++ "false"
  | .number n => out ++ n.render
  | .text s => out ++ quote s
  | .list [] => out ++ "[]"
  | .list (v :: vs) =>
    writeItems layout (depth + 1)
      (write layout (depth + 1) (out ++ "[" ++ layout.line (depth + 1)) v) vs ++
      layout.line depth ++ "]"
  | .object [] => out ++ "\x7b\x7d"
  | .object ((k, v) :: ms) =>
    writeMembers layout (depth + 1)
      (write layout (depth + 1)
        (out ++ "\x7b" ++ layout.line (depth + 1) ++ quote k ++ layout.colon) v) ms ++
      layout.line depth ++ "\x7d"

/-- The items after the first one. -/
def writeItems (layout : Layout) (depth : Nat) (out : String) : List Json → String
  | [] => out
  | v :: vs =>
    writeItems layout depth (write layout depth (out ++ "," ++ layout.line depth) v) vs

/-- The members after the first one. -/
def writeMembers (layout : Layout) (depth : Nat) (out : String) : List (String × Json) → String
  | [] => out
  | (k, v) :: ms =>
    writeMembers layout depth
      (write layout depth (out ++ "," ++ layout.line depth ++ quote k ++ layout.colon) v) ms

end

/-- The value on one line. -/
def compact (v : Json) : String :=
  write .compact 0 "" v

/-- The value on many lines. -/
def indented (v : Json) : String :=
  write .indented 0 "" v

end CodeReview.Json
