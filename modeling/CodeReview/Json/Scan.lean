import CodeReview.Decimal.Numeral
import CodeReview.Json.Fault
import CodeReview.Text.Parsed
import CodeReview.Text.Utf8

/-!
The smallest parts of a document: blanks, words and texts.
-/

namespace CodeReview.Json

/-- The byte of an ASCII character. -/
abbrev byte (c : Char) : UInt8 := c.toUInt8

/-- Space, tab, line feed and carriage return may stand between the parts of a document. -/
def isSpace (b : UInt8) : Bool :=
  b = byte ' ' || b = byte '\t' || b = byte '\n' || b = byte '\r'

def skipSpace (s : Bytes) : Bytes :=
  s.dropWhile isSpace

/-- The first byte that is no space. -/
def next (s : Bytes) : Option (Parsed UInt8 s) :=
  go s (Nat.le_refl _)
where
  go (t : Bytes) (h : t.length ≤ s.length) : Option (Parsed UInt8 s) :=
    match t with
    | [] => none
    | b :: rest =>
      if isSpace b then go rest (Nat.le_of_succ_le h) else some ⟨b, rest, h⟩

/-- The rest of a word whose first letter was read. -/
def word (letters : List UInt8) (s : Bytes) : Except Fault (Rest s) :=
  match letters, s with
  | [], s => .ok ⟨s, Nat.le_refl _⟩
  | _ :: _, [] => .error (.before .endOfValue [])
  | l :: ls, b :: rest =>
    if b = l then do
      let r ← word ls rest
      .ok ⟨r.1, Nat.le_succ_of_le r.2⟩
    else .error (.before .expectedWord rest)

/-! ### Texts -/

def hexValue? (b : UInt8) : Option Nat :=
  Decimal.digitIn? 16 (Char.ofUInt8 b)

/-- Four hexadecimal digits. -/
def hexUnit : (s : Bytes) → Except Fault (Parsed Nat s)
  | a :: b :: c :: d :: rest =>
    match hexValue? a, hexValue? b, hexValue? c, hexValue? d with
    | some a, some b, some c, some d =>
      .ok ⟨((a * 16 + b) * 16 + c) * 16 + d, rest, by simp; omega⟩
    | _, _, _, _ => .error (.before .badEscape rest)
  | _ => .error (.before .endOfText [])

def isHighSurrogate (n : Nat) : Bool := 0xD800 ≤ n && n < 0xDC00

def isLowSurrogate (n : Nat) : Bool := 0xDC00 ≤ n && n < 0xE000

def joinSurrogates (high low : Nat) : Nat :=
  0x10000 + (high - 0xD800) * 0x400 + (low - 0xDC00)

/-- The byte that must come next inside of an escaped pair of surrogates. -/
def pairByte (b : UInt8) : (s : Bytes) → Except Fault (Parsed Unit s)
  | [] => .error (.before .endOfText [])
  | c :: rest =>
    if c = b then .ok ⟨(), rest, by simp⟩ else .error (.before .cutSurrogate rest)

/-- The code point after a backslash and `u`: one unit, or a high and a low surrogate. -/
def escapedCodePoint (s : Bytes) : Except Fault (Parsed Nat s) := do
  let high ← hexUnit s
  if isLowSurrogate high.value then
    .error (.before .loneSurrogate high.rest)
  else if isHighSurrogate high.value then
    let slash ← pairByte (byte '\\') high.rest
    let letter ← pairByte (byte 'u') slash.rest
    let low ← hexUnit letter.rest
    if isLowSurrogate low.value then
      .ok ⟨joinSurrogates high.value low.value, low.rest,
        by have := high.shorter; have := slash.shorter; have := letter.shorter
           have := low.shorter; omega⟩
    else .error (.before .loneSurrogate low.rest)
  else .ok high

/-- The byte that a backslash and a letter stand for. -/
def shortEscape? (b : UInt8) : Option UInt8 :=
  if b = byte '"' ∨ b = byte '\\' ∨ b = byte '/' then some b
  else if b = byte 'b' then some 8
  else if b = byte 'f' then some 12
  else if b = byte 'n' then some 10
  else if b = byte 'r' then some 13
  else if b = byte 't' then some 9
  else none

/-- The bytes that an escape stands for; its backslash was read. -/
def escape : (s : Bytes) → Except Fault (Parsed Bytes s)
  | [] => .error (.before .endOfText [])
  | b :: rest =>
    match shortEscape? b with
    | some c => .ok ⟨[c], rest, by simp⟩
    | none =>
      if b = byte 'u' then do
        let p ← escapedCodePoint rest
        .ok ((p.map fun n => String.utf8EncodeChar (Char.ofNat n)).widen (by simp))
      else .error (.before .badEscape rest)

/-- The bytes of a text up to its closing quotation mark, before those in `done`, which come in
reverse. -/
def textBytes (start s : Bytes) (h : s.length ≤ start.length) (done : Bytes) :
    Except Fault (Parsed Bytes start) :=
  match s with
  | [] => .error (.before .endOfText [])
  | b :: rest =>
    if b = byte '"' then .ok ⟨done.reverse, rest, h⟩
    else if b = byte '\\' then do
      let e ← escape rest
      textBytes start e.rest (e.length_le_of_cons_le h) (e.value.reverse ++ done)
    else if b < 0x20 then .error (.before .controlCharacter rest)
    else textBytes start rest (length_le_of_cons_le h) (b :: done)
termination_by s.length
decreasing_by
  · exact e.length_lt_cons
  · exact length_tail_lt b rest

/-- A text whose opening quotation mark was read. Bytes that are no UTF-8 are a fault at the first
of them, counted back from the closing mark. -/
def scanText (s : Bytes) : Except Fault (Parsed String s) := do
  let p ← textBytes s s (Nat.le_refl _) []
  match Text.ofBytes? p.value with
  | some t => .ok ⟨t, p.rest, p.shorter⟩
  | none =>
    .error
      { cause := .badCodePoint
        left := p.rest.length + (p.value.length - Text.validLength p.value) }

end CodeReview.Json
