import CodeReview.Decimal.Numeral
import CodeReview.Text.Parsed
import CodeReview.Toml.Basic

/-!
The smallest parts of a TOML document: blanks, comments, texts in their four ways of writing,
numbers, dates and times.
-/

namespace CodeReview.Toml

abbrev Chars := List Char

/-- A reader of the start of a text. -/
abbrev Scan (α : Type) := (s : Chars) → Option (Parsed α s)

def isSpace (c : Char) : Bool :=
  c = ' ' || c = '\t'

/-- A character that may stand in comments and in texts as it is. -/
def isPlain (c : Char) : Bool :=
  c = '\t' || (0x20 ≤ c.toNat && c.toNat ≠ 0x7F)

def skipSpace (s : Chars) : Rest s :=
  dropped isSpace s

/-- A line feed, with or without a carriage return before it. -/
def newline : Scan Unit
  | '\n' :: rest => some ⟨(), rest, by simp⟩
  | '\r' :: '\n' :: rest => some ⟨(), rest, by simp only [List.length_cons]; omega⟩
  | _ => none

/-- Passes over a comment, if there is one. -/
def skipComment (s : Chars) : Rest s :=
  match s with
  | [] => ⟨[], Nat.le_refl _⟩
  | c :: rest =>
    if c = '#' then let r := dropped isPlain rest; ⟨r.1, Nat.le_succ_of_le r.2⟩
    else ⟨c :: rest, Nat.le_refl _⟩

/-- Passes over blanks, comments and ends of lines. -/
def skipLines (s : Chars) : Rest s :=
  go s (Nat.le_refl _)
where
  go (t : Chars) (h : t.length ≤ s.length) : Rest s :=
    let r := skipSpace t
    let c := skipComment r.1
    match newline c.1 with
    | none => ⟨c.1, Nat.le_trans c.2 (Nat.le_trans r.2 h)⟩
    | some p => go p.rest (by have := p.shorter; have := c.2; have := r.2; omega)
  termination_by t.length
  decreasing_by have := p.shorter; have := c.2; have := r.2; omega

/-- The rest of a line: blanks, a comment, and the end of the line or of the document. -/
def lineEnd (s : Chars) : Option (Rest s) :=
  let r := skipSpace s
  let c := skipComment r.1
  match newline c.1 with
  | some p => some ⟨p.rest, by have := p.shorter; have := c.2; have := r.2; omega⟩
  | none =>
    if c.1 = [] then some ⟨[], by simp⟩ else none

/-! ### Texts -/

/-- The character with a number in base sixteen of exactly so many digits. -/
def escapedChar (width : Nat) : Scan Char := fun s =>
  let ds := s.take width
  if h : width ≠ 0 ∧ ds.length = width then
    let n := Decimal.valueIn 16 ds
    if ds.all (fun c => (Decimal.digitIn? 16 c).isSome) ∧ n.isValidChar then
      some ⟨Char.ofNat n, s.drop width, by
        have := h.1; have h₂ := h.2; simp [ds] at h₂ ⊢; omega⟩
    else none
  else none

/-- The character that a backslash and a letter stand for. -/
def shortEscape? (c : Char) : Option Char :=
  match c with
  | 'b' => some '\x08'
  | 't' => some '\t'
  | 'n' => some '\n'
  | 'f' => some '\x0c'
  | 'r' => some '\r'
  | '"' => some '"'
  | '\\' => some '\\'
  | _ => none

/-- What a backslash and the text after it stand for. -/
def escape : Scan Char
  | [] => none
  | c :: rest =>
    match shortEscape? c with
    | some d => some ⟨d, rest, by simp⟩
    | none =>
      if c = 'u' then (escapedChar 4 rest).map fun p => p.widen (by simp)
      else if c = 'U' then (escapedChar 8 rest).map fun p => p.widen (by simp)
      else none

/-- A text on one line whose opening mark was read. `done` is the text so far in reverse. -/
def quotedText (start s : Chars) (h : s.length ≤ start.length) (done : Chars) :
    Option (Parsed String start) :=
  match s with
  | [] => none
  | c :: rest =>
    if c = '"' then some ⟨String.ofList done.reverse, rest, by simp at h; omega⟩
    else if c = '\\' then
      match escape rest with
      | none => none
      | some p =>
        quotedText start p.rest (by have := p.shorter; simp at h; omega) (p.value :: done)
    else if isPlain c then quotedText start rest (by simp at h; omega) (c :: done)
    else none
termination_by s.length
decreasing_by
  · have := p.shorter; simp; omega
  · simp

/-- A text on one line without escapes, whose opening apostrophe was read. -/
def literalText : Scan String := fun s =>
  let body := s.takeWhile fun c => isPlain c && c != '\x27'
  let r := dropped (fun c => isPlain c && c != '\x27') s
  match h : r.1 with
  | [] => none
  | c :: rest =>
    if c = '\x27' then
      some ⟨String.ofList body, rest, by have := r.2; simp [h] at this; omega⟩
    else none

/-- Passes over all blanks and ends of lines. -/
def skipBlankLines (s : Chars) : Rest s :=
  dropped (fun c => c = ' ' || c = '\t' || c = '\n' || c = '\r') s

/-- The end of a line after a backslash, which joins it with what comes next. -/
def joinedLine (s : Chars) : Option (Rest s) :=
  let r := skipSpace s
  match newline r.1 with
  | none => none
  | some p =>
    let b := skipBlankLines p.rest
    some ⟨b.1, by have := b.2; have := p.shorter; have := r.2; omega⟩

/-- A text over several lines whose opening marks were read. Up to two marks in a row are part of
it; the last three of up to five end it. -/
def longText (mark : Char) (escapes : Bool) (start s : Chars) (h : s.length ≤ start.length)
    (done : Chars) : Option (Parsed String start) :=
  match s with
  | [] => none
  | c :: rest =>
    if c = mark then
      let marks := 1 + (rest.takeWhile (· = mark)).length
      let within := if marks < 3 then marks else min (marks - 3) 2
      let all := List.replicate within mark ++ done
      let after := rest.drop ((if marks < 3 then marks else within + 3) - 1)
      if marks < 3 then
        longText mark escapes start after
          (Nat.le_of_lt (Nat.lt_of_lt_of_le (length_drop_lt_cons c rest _) h)) all
      else
        some ⟨String.ofList all.reverse, after,
          Nat.lt_of_lt_of_le (length_drop_lt_cons c rest _) h⟩
    else if c = '\\' ∧ escapes then
      match joinedLine rest with
      | some r => longText mark escapes start r.1 (Rest.length_le_of_cons_le r h) done
      | none =>
        match escape rest with
        | none => none
        | some p =>
          longText mark escapes start p.rest (p.length_le_of_cons_le h) (p.value :: done)
    else
      match newline (c :: rest) with
      | some p =>
        longText mark escapes start p.rest (Nat.le_trans p.length_le h) ('\n' :: done)
      | none =>
        if isPlain c then longText mark escapes start rest (length_le_of_cons_le h) (c :: done)
        else none
termination_by s.length
decreasing_by
  · exact length_drop_lt_cons c rest _
  · exact Rest.length_lt_cons r
  · exact p.length_lt_cons
  · exact p.shorter
  · exact length_tail_lt c rest

/-- A long text; an end of line right after its opening marks is not part of it. -/
def longTextFrom (mark : Char) (escapes : Bool) (s : Chars) : Option (Parsed String s) :=
  match newline s with
  | some p => longText mark escapes s p.rest (Nat.le_of_lt p.shorter) []
  | none => longText mark escapes s s (Nat.le_refl _) []

/-- A text on one line, with its opening mark. -/
def shortText : Scan String
  | '"' :: rest => (quotedText rest rest (Nat.le_refl _) []).map fun p => p.widen (by simp)
  | '\x27' :: rest => (literalText rest).map fun p => p.widen (by simp)
  | _ => none

/-- A text in any way of writing. -/
def anyText : Scan String
  | '"' :: '"' :: '"' :: rest => (longTextFrom '"' true rest).map fun p => p.widen (by simp; omega)
  | '\x27' :: '\x27' :: '\x27' :: rest =>
    (longTextFrom '\x27' false rest).map fun p => p.widen (by simp; omega)
  | s => shortText s

/-! ### Numbers -/

/-- Digits, with single underscores between them. -/
def groupedDigits? (isDigit : Char → Bool) (cs : Chars) : Option Chars :=
  match cs with
  | [] => none
  | c :: rest => if isDigit c then (go rest).map (c :: ·) else none
where
  go : Chars → Option Chars
    | [] => some []
    | '_' :: c :: rest => if isDigit c then (go rest).map (c :: ·) else none
    | c :: rest => if isDigit c then (go rest).map (c :: ·) else none

def splitSign : Chars → Bool × Chars
  | '-' :: rest => (true, rest)
  | '+' :: rest => (false, rest)
  | rest => (false, rest)

/-- Decimal digits without leading zeros. -/
def wholeDigits? (cs : Chars) : Option Chars :=
  match groupedDigits? Decimal.isDigit cs with
  | some ('0' :: _ :: _) => none
  | ds => ds

/-- A whole number in another base than ten. -/
def basedInteger? (base : Nat) (cs : Chars) : Option Int :=
  (groupedDigits? (fun c => (Decimal.digitIn? base c).isSome) cs).map fun ds =>
    (Decimal.valueIn base ds : Int)

/-- A whole number that fits into 64 bits with a sign. -/
def integer? (cs : Chars) : Option Int :=
  let n : Option Int := match cs with
    | '0' :: 'x' :: ds => basedInteger? 16 ds
    | '0' :: 'o' :: ds => basedInteger? 8 ds
    | '0' :: 'b' :: ds => basedInteger? 2 ds
    | cs =>
      let (negative, ds) := splitSign cs
      (wholeDigits? ds).map fun ds =>
        let n : Int := Decimal.valueOf ds
        if negative then -n else n
  n.filter fun n => -0x8000000000000000 ≤ n ∧ n < 0x8000000000000000

/-- A float: a whole part with a fraction, an exponent, or both. -/
def float? (cs : Chars) : Option Float := do
  let (negative, body) := splitSign cs
  let sign (x : Float) : Float := if negative then -x else x
  if body = ['i', 'n', 'f'] then return sign (1.0 / 0.0)
  if body = ['n', 'a', 'n'] then return sign (0.0 / 0.0)
  let isE (c : Char) : Bool := c = 'e' || c = 'E'
  let mantissa := body.takeWhile fun c => !isE c
  let exponent := body.dropWhile fun c => !isE c
  let whole ← wholeDigits? (mantissa.takeWhile (· ≠ '.'))
  let fraction ← match mantissa.dropWhile (· ≠ '.') with
    | [] => if exponent = [] then none else some []
    | _ :: ds => groupedDigits? Decimal.isDigit ds
  let power : Int ← match exponent with
    | [] => some 0
    | _ :: ds =>
      let (below, ds) := splitSign ds
      (groupedDigits? Decimal.isDigit ds).map fun ds =>
        let n : Int := Decimal.valueOf ds
        if below then -n else n
  let x := sign (Decimal.nearest (Decimal.valueOf (whole ++ fraction)) (power - fraction.length))
  if x.isInf && 0.0 < x then none else some x

/-! ### Dates and times -/

def number? (cs : Chars) : Option Nat :=
  if cs.all Decimal.isDigit then some (Decimal.valueOf cs) else none

def daysIn (year month : Nat) : Nat :=
  if month = 2 then
    if year % 4 = 0 ∧ (year % 100 ≠ 0 ∨ year % 400 = 0) then 29 else 28
  else if month = 4 ∨ month = 6 ∨ month = 9 ∨ month = 11 then 30
  else 31

/-- `yyyy-mm-dd`. -/
def isDate : Chars → Bool
  | [a, b, c, d, '-', e, f, '-', g, h] =>
    match number? [a, b, c, d], number? [e, f], number? [g, h] with
    | some year, some month, some day =>
      1 ≤ month && month ≤ 12 && 1 ≤ day && day ≤ daysIn year month
    | _, _, _ => false
  | _ => false

/-- `hh:mm:ss` with any number of decimal places, and what follows it. -/
def afterTime? : Chars → Option Chars
  | a :: b :: ':' :: c :: d :: ':' :: e :: f :: rest =>
    match number? [a, b], number? [c, d], number? [e, f] with
    | some hour, some minute, some second =>
      if hour < 24 ∧ minute < 60 ∧ second ≤ 60 then
        match rest with
        | '.' :: c :: rest =>
          if Decimal.isDigit c then some (rest.dropWhile Decimal.isDigit) else none
        | rest => some rest
      else none
    | _, _, _ => none
  | _ => none

/-- The distance from universal time. -/
def isOffset : Chars → Bool
  | ['Z'] => true
  | ['z'] => true
  | [sign, a, b, ':', c, d] =>
    match number? [a, b], number? [c, d] with
    | some hour, some minute => (sign = '+' || sign = '-') && hour < 24 && minute < 60
    | _, _ => false
  | _ => false

def isMoment (cs : Chars) : Bool :=
  let date := cs.take 10
  if isDate date then
    match cs.drop 10 with
    | [] => true
    | sep :: rest =>
      (sep = 'T' || sep = 't' || sep = ' ') &&
        (match afterTime? rest with
         | some [] => true
         | some offset => isOffset offset
         | none => false)
  else afterTime? cs = some []

/-- A character of a number, a word, a date or a time. -/
def isTokenChar (c : Char) : Bool :=
  c.isAlphanum || c = '_' || c = '+' || c = '-' || c = '.' || c = ':'

/-- The length of a token. A date and a time may have a blank between them. -/
def tokenLength (s : Chars) : Nat :=
  let n := (s.takeWhile isTokenChar).length
  match s.drop n with
  | ' ' :: rest =>
    let time := rest.takeWhile isTokenChar
    if isDate (s.take n) ∧ (time.head?.any Decimal.isDigit) then n + 1 + time.length else n
  | _ => n

/-- A value that is written as one word. -/
def scalar : Scan Toml := fun s =>
  let n := tokenLength s
  let token := s.take n
  if h : n = 0 ∨ s = [] then none
  else
    let v : Option Toml :=
      if token = ['t', 'r', 'u', 'e'] then some (.bool true)
      else if token = ['f', 'a', 'l', 's', 'e'] then some (.bool false)
      else if isMoment token then some .moment
      else
        match integer? token with
        | some i => some (.integer i)
        | none => (float? token).map .real
    v.map fun v =>
      ⟨v, s.drop n, by
        have : s.length ≠ 0 := fun e => h (.inr (List.length_eq_zero_iff.1 e))
        simp; omega⟩

end CodeReview.Toml
