import CodeReview.Text.Split
import CodeReview.Text.Blank

/-!
Media types as they stand in a content type header: a type, a subtype that may end in a suffix after
a plus sign, and parameters. Letters count in either case.
-/

namespace CodeReview

structure MediaType where
  type : String
  subtype : String
  suffix : Option String
deriving DecidableEq, Repr

namespace MediaType

/-- A character of a name or of a value without quotation marks. -/
def isTokenChar (c : Char) : Bool :=
  c.isAlphanum ||
    ['!', '#', '$', '%', '&', '\x27', '*', '+', '-', '.', '^', '_', '\x60', '|', '~'].contains c

/-- A character between quotation marks. -/
def isQuotable (c : Char) : Bool :=
  0x20 ≤ c.toNat && c.toNat ≠ 0x7F

/-- What is left after the closing quotation mark of a value that is not empty. -/
def afterQuoted? (empty : Bool) : List Char → Option (List Char)
  | [] => none
  | '"' :: rest => if empty then afterQuoted? false rest else some rest
  | '\\' :: c :: rest => if isQuotable c then afterQuoted? false rest else none
  | c :: rest => if isQuotable c then afterQuoted? false rest else none

/-- Parameters after a semicolon: names and values, with semicolons and blanks between them. Each
piece of fuel lets one parameter be read, and a parameter has at least one character. -/
def areParameters : Nat → List Char → Bool
  | _, [] => true
  | 0, _ => false
  | fuel + 1, cs =>
    let cs := cs.dropWhile (· = ' ')
    if cs = [] then true
    else
      let name := cs.takeWhile isTokenChar
      match cs.drop name.length with
      | '=' :: '"' :: rest =>
        match name, afterQuoted? true rest with
        | _ :: _, some after =>
          match after.dropWhile (· = ' ') with
          | [] => true
          | ';' :: rest => areParameters fuel rest
          | _ => false
        | _, _ => false
      | '=' :: rest =>
        let value := rest.takeWhile isTokenChar
        match name, value, rest.drop value.length with
        | _ :: _, _, [] => true
        | _ :: _, _ :: _, ';' :: rest => areParameters fuel rest
        | _, _, _ => false
      | _ => false

/-- The subtype and its suffix, which follows the last plus sign. A plus sign at the start belongs
to the subtype. -/
def splitSuffix (cs : List Char) : List Char × Option (List Char) :=
  let fromLast := cs.reverse
  match fromLast.dropWhile (· ≠ '+') with
  | _ :: before =>
    if before = [] then (cs, none)
    else (before.reverse, some (fromLast.takeWhile (· ≠ '+')).reverse)
  | [] => (cs, none)

/-- The media type that a text names. -/
def ofText? (s : String) : Option MediaType :=
  let cs := (Text.lowerAscii s).toList
  if !cs.all (fun c => c = '\t' || (0x20 ≤ c.toNat && c.toNat < 0x7F)) then none
  else
    let type := cs.takeWhile isTokenChar
    match type, cs.drop type.length with
    | _ :: _, '/' :: rest =>
      let full := rest.takeWhile isTokenChar
      let after := rest.drop full.length
      let (subtype, suffix) := splitSuffix full
      let made : MediaType :=
        ⟨String.ofList type, String.ofList subtype, suffix.map String.ofList⟩
      match full, after with
      | _, [] => some made
      | _ :: _, ';' :: ps => if areParameters ps.length ps then some made else none
      | _, _ => none
    | _, _ => none

/-- The type stands for JSON text. -/
def isJson (m : MediaType) : Bool :=
  m.type = "application" && (m.subtype = "json" || m.suffix = some "json")

end MediaType

end CodeReview
