import CodeReview.Text.Unseen

/-!
Texts between quotation marks, as messages show them. A mark, a backslash and every unseen
character is written with a backslash, so the quoted form is one line and ends where it seems to.
-/

namespace CodeReview.Text

/-- The digits of a number in base sixteen, in lower case and without leading zeros. -/
def hexDigits (n : Nat) : String :=
  String.ofList (Nat.toDigits 16 n)

/-- A character inside quotation marks. The apostrophe is marked only where `apostrophe` asks. -/
def quotedChar (apostrophe : Bool) (c : Char) : String :=
  if c = '\x00' then "\\0"
  else if c = '\t' then "\\t"
  else if c = '\n' then "\\n"
  else if c = '\r' then "\\r"
  else if c = '"' || c = '\\' || (apostrophe && c.toNat = 0x27) then String.ofList ['\\', c]
  else if isUnseen c then "\\u\x7b" ++ hexDigits c.toNat ++ "\x7d"
  else String.singleton c

/-- A text in quotation marks. -/
def quoted (s : String) : String :=
  "\"" ++ String.join (s.toList.map (quotedChar false)) ++ "\""

/-- A file name in quotation marks; here the apostrophe is marked as well. -/
def quotedPath (s : String) : String :=
  "\"" ++ String.join (s.toList.map (quotedChar true)) ++ "\""

end CodeReview.Text
