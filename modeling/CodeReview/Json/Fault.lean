import CodeReview.Decimal.Text
import CodeReview.Json.Basic
import CodeReview.Text.Quoted

/-!
What can be wrong with a JSON document. A fault has a cause, a place in the text and the path of
the member or item in which it was found. The place is kept as the number of bytes after it, so
that a reader can name it without knowing the whole text.
-/

namespace CodeReview.Json

abbrev Bytes := List UInt8

/-- What stood where something else was expected. -/
inductive Found where
  | null
  | bool (b : Bool)
  | integer (n : Int)
  | real (x : Float)
  | text (s : String)
  | list
  | object

/-- What a reader asked for. -/
inductive Expected where
  | text
  /-- A number of the named width. -/
  | number (width : String)
  | list
  | table
  | unit
  /-- One of some names. -/
  | variant
  | record (name : String)

/-- The reasons to refuse a document. The first group is about syntax, the second one about values
that do not have the form that a reader asked for. -/
inductive Cause where
  | endOfValue
  | endOfText
  | endOfList
  | endOfObject
  | expectedValue
  | expectedWord
  | expectedColon
  | expectedListEnd
  | expectedObjectEnd
  | keyNotText
  | trailingComma
  | trailingCharacters
  | badNumber
  | outOfRange
  | badEscape
  | loneSurrogate
  | cutSurrogate
  | badCodePoint
  | controlCharacter
  | tooDeep
  | wrongKind (found : Found) (expected : Expected)
  | wrongValue (found : Found) (expected : Expected)
  | wrongLength (length : Nat) (record : String) (size : Nat)
  | unknownVariant (name : String) (known : List String)
  | duplicateField (key : String)
  | missingField (key : String)

/-- A step from a value to a value inside of it. -/
inductive Place where
  | key (name : String)
  | index (n : Nat)
deriving DecidableEq

structure Fault where
  cause : Cause
  /-- How many bytes of the document come after the place of the fault. -/
  left : Nat
  path : List Place := []

/-- The fault at the place where `rest` is left to read. -/
def Fault.before (cause : Cause) (rest : Bytes) : Fault :=
  { cause, left := rest.length }

/-- The fault lies in the value at this step. -/
def Fault.under (place : Place) (fault : Fault) : Fault :=
  { fault with path := place :: fault.path }

/-- Faults of what is read here are reported as faults at this step. -/
def within (place : Place) (r : Except Fault α) : Except Fault α :=
  r.mapError (Fault.under place)

def Found.describe : Found → String
  | .null => "null"
  | .bool true => "boolean `true`"
  | .bool false => "boolean `false`"
  | .integer n => "integer `" ++ toString n ++ "`"
  | .real x => "floating point `" ++ Decimal.display x ++ "`"
  | .text s => "string " ++ Text.quoted s
  | .list => "sequence"
  | .object => "map"

def Expected.describe : Expected → String
  | .text => "a string"
  | .number width => width
  | .list => "a sequence"
  | .table => "a map"
  | .unit => "unit"
  | .variant => "variant identifier"
  | .record name => "struct " ++ name

/-- A choice of names: one, two, or a list of them. -/
def choices (names : List String) : String :=
  let marked := names.map fun n => "`" ++ n ++ "`"
  match marked with
  | [a] => a
  | [a, b] => a ++ " or " ++ b
  | all => "one of " ++ ", ".intercalate all

def Cause.message : Cause → String
  | .endOfValue => "EOF while parsing a value"
  | .endOfText => "EOF while parsing a string"
  | .endOfList => "EOF while parsing a list"
  | .endOfObject => "EOF while parsing an object"
  | .expectedValue => "expected value"
  | .expectedWord => "expected ident"
  | .expectedColon => "expected `:`"
  | .expectedListEnd => "expected `,` or `]`"
  | .expectedObjectEnd => "expected `,` or `\x7d`"
  | .keyNotText => "key must be a string"
  | .trailingComma => "trailing comma"
  | .trailingCharacters => "trailing characters"
  | .badNumber => "invalid number"
  | .outOfRange => "number out of range"
  | .badEscape => "invalid escape"
  | .loneSurrogate => "lone leading surrogate in hex escape"
  | .cutSurrogate => "unexpected end of hex escape"
  | .badCodePoint => "invalid unicode code point"
  | .controlCharacter => "control character (\\u0000-\\u001F) found while parsing a string"
  | .tooDeep => "recursion limit exceeded"
  | .wrongKind found expected =>
    "invalid type: " ++ found.describe ++ ", expected " ++ expected.describe
  | .wrongValue found expected =>
    "invalid value: " ++ found.describe ++ ", expected " ++ expected.describe
  | .wrongLength length record size =>
    "invalid length " ++ toString length ++ ", expected struct " ++ record ++ " with " ++
      toString size ++ (if size = 1 then " element" else " elements")
  | .unknownVariant name known => "unknown variant `" ++ name ++ "`, expected " ++ choices known
  | .duplicateField key => "duplicate field `" ++ key ++ "`"
  | .missingField key => "missing field `" ++ key ++ "`"

/-- The cause is about a value of the wrong form, and not about syntax. -/
def Cause.isAboutForm : Cause → Bool
  | .wrongKind .. | .wrongValue .. | .wrongLength .. => true
  | .unknownVariant .. | .duplicateField .. | .missingField .. => true
  | _ => false

/-- The steps of a path, as in `list[2].name`. -/
def pathText (path : List Place) : String :=
  go true path
where
  go (first : Bool) : List Place → String
    | [] => ""
    | .key name :: rest => (if first then name else "." ++ name) ++ go false rest
    | .index n :: rest => "[" ++ toString n ++ "]" ++ go false rest

/-- A place in a text: its line, from 1 on, and the bytes before it on that line. -/
structure Position where
  line : Nat
  column : Nat
deriving Repr, DecidableEq

def Position.start : Position := ⟨1, 0⟩

def Position.after (p : Position) (b : UInt8) : Position :=
  if b = 10 then ⟨p.line + 1, 0⟩ else ⟨p.line, p.column + 1⟩

/-- The place that has so many bytes of the document after it. -/
def Position.of (document : Bytes) (left : Nat) : Position :=
  (document.take (document.length - left)).foldl Position.after Position.start

/-- A fault of a whole document. -/
structure Refusal where
  cause : Cause
  position : Position
  path : List Place

def Fault.refusal (document : Bytes) (fault : Fault) : Refusal :=
  ⟨fault.cause, .of document fault.left, fault.path⟩

/-- The cause with its line and column. -/
def Refusal.message (r : Refusal) : String :=
  r.cause.message ++ " at line " ++ toString r.position.line ++ " column " ++
    toString r.position.column

/-- The message after the path of the value that it is about. -/
def Refusal.messageWithPath (r : Refusal) : String :=
  if r.path = [] then r.message else pathText r.path ++ ": " ++ r.message

end CodeReview.Json
