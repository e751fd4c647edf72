import CodeReview.Json.Scan

/-!
Numbers as they are written, and the values that they have. A numeral is scanned as digits first.
Its value is a whole number if it is written as one and fits into 64 bits; all other values are
floats, made from the digits that fit into 64 bits and a power of ten.
-/

namespace CodeReview.Json

/-- The parts of a written number. -/
structure Numeral where
  negative : Bool
  /-- The digits before the point. -/
  whole : Bytes
  /-- The digits after the point, if there is a point. -/
  fraction : Option Bytes
  /-- The sign and the digits of the exponent, if there is one. -/
  exponent : Option (Bool × Bytes)

def isDigit (b : UInt8) : Bool := byte '0' ≤ b && b ≤ byte '9'

def digitValue (b : UInt8) : Nat := b.toNat - 48

/-- The digits at the start of a text. -/
def digits (s : Bytes) : Bytes × Rest s :=
  (s.takeWhile isDigit, dropped isDigit s)

/-- The digits before the point; a zero stands alone. -/
def wholePart (atEnd : Cause) : (s : Bytes) → Except Fault (Parsed Bytes s)
  | [] => .error (.before atEnd [])
  | b :: rest =>
    if b = byte '0' then
      if rest.head?.any isDigit then .error (.before .badNumber rest.tail)
      else .ok ⟨[b], rest, length_tail_lt b rest⟩
    else if isDigit b then
      let d := digits rest
      .ok ⟨b :: d.1, d.2.1, Nat.lt_succ_of_le d.2.2⟩
    else .error (.before .badNumber rest)

/-- The point and the digits after it, if there is a point. -/
def fractionPart (atEnd : Cause) (s : Bytes) : Except Fault (Option Bytes × Rest s) :=
  match s with
  | [] => .ok (none, ⟨[], by simp⟩)
  | b :: rest =>
    if b = byte '.' then
      let d := digits rest
      match d.1, d.2.1 with
      | [], [] => .error (.before atEnd [])
      | [], _ :: after => .error (.before .badNumber after)
      | _ :: _, _ => .ok (some d.1, ⟨d.2.1, Nat.le_succ_of_le d.2.2⟩)
    else .ok (none, ⟨b :: rest, Nat.le_refl _⟩)

/-- The sign of an exponent, which is negative if this is true. -/
def exponentSign (s : Bytes) : Bool × Rest s :=
  match s with
  | [] => (false, ⟨[], by simp⟩)
  | b :: rest =>
    if b = byte '-' then (true, ⟨rest, length_tail_le b rest⟩)
    else if b = byte '+' then (false, ⟨rest, length_tail_le b rest⟩)
    else (false, ⟨b :: rest, Nat.le_refl _⟩)

/-- The exponent, if there is one. -/
def exponentPart (atEnd : Cause) (s : Bytes) : Except Fault (Option (Bool × Bytes) × Rest s) :=
  match s with
  | [] => .ok (none, ⟨[], by simp⟩)
  | b :: rest =>
    if b = byte 'e' ∨ b = byte 'E' then
      let sign := exponentSign rest
      match h : sign.2.1 with
      | [] => .error (.before atEnd [])
      | c :: after =>
        if isDigit c then
          let d := digits after
          .ok (some (sign.1, c :: d.1),
            ⟨d.2.1, by have h₁ := d.2.2; have h₂ := sign.2.2; simp [h] at h₂ ⊢; omega⟩)
        else .error (.before .badNumber after)
    else .ok (none, ⟨b :: rest, Nat.le_refl _⟩)

/-- A numeral whose sign, if it has one, was read. `atEnd` is what is wrong with a numeral at which
the document ends. -/
def scanNumeral (atEnd : Cause) (negative : Bool) (s : Bytes) :
    Except Fault (Parsed Numeral s) := do
  let whole ← wholePart atEnd s
  let fraction ← fractionPart atEnd whole.rest
  let exponent ← exponentPart atEnd fraction.2.1
  .ok ⟨⟨negative, whole.value, fraction.1, exponent.1⟩, exponent.2.1,
    by have := whole.shorter; have := fraction.2.2; have := exponent.2.2; omega⟩

/-! ### Values -/

def largestWord : Nat := UInt64.size - 1

/-- Digits taken into a number of 64 bits, and the power of ten that it still has to be multiplied
with. -/
structure Significand where
  digits : Nat
  exponent : Int

/-- One more digit before the point. From the first digit that does not fit on, digits count only
as a factor of ten; `full` says that this has begun. -/
def Significand.takeWhole : Significand × Bool → UInt8 → Significand × Bool
  | (m, full), b =>
    let n := m.digits * 10 + digitValue b
    if full || largestWord < n then (⟨m.digits, m.exponent + 1⟩, true)
    else (⟨n, m.exponent⟩, false)

/-- One more digit after the point. From the first digit that does not fit on, digits are
ignored. -/
def Significand.takeFraction : Significand × Bool → UInt8 → Significand × Bool
  | (m, full), b =>
    let n := m.digits * 10 + digitValue b
    if full || largestWord < n then (m, true)
    else (⟨n, m.exponent - 1⟩, false)

/-- The digits of a numeral, without its exponent. -/
def Numeral.significand (n : Numeral) : Significand :=
  let whole := n.whole.foldl Significand.takeWhole (⟨0, 0⟩, false)
  let all := (n.fraction.getD []).foldl Significand.takeFraction (whole.1, false)
  all.1

/-- The numeral is written without a point and an exponent. -/
def Numeral.isWhole (n : Numeral) : Bool :=
  n.fraction.isNone && n.exponent.isNone

/-- A power of ten that is a float. -/
def powerOfTen (n : Nat) : Float :=
  Float.ofScientific 1 false n

/-- A float times a power of ten; nothing if the product is beyond all floats. A power
that is no float itself is divided by in two steps, and of more than two steps nothing is left. -/
def scaled? (x : Float) (exponent : Int) : Option Float :=
  if exponent.natAbs ≤ 308 then
    if 0 ≤ exponent then
      let y := x * powerOfTen exponent.toNat
      if y.isInf then none else some y
    else some (x / powerOfTen exponent.natAbs)
  else if x == 0 then some x
  else if 0 ≤ exponent then none
  else if exponent + 308 < -308 then some 0
  else some (x / powerOfTen 308 / powerOfTen (exponent + 308).natAbs)

def largestExponent : Nat := 0x7FFFFFFF

/-- The exponent, or the number of its digits after the one at which it becomes too large. -/
def exponentValue (ds : Bytes) : Except Nat Nat :=
  go 0 ds
where
  go (n : Nat) : Bytes → Except Nat Nat
    | [] => .ok n
    | b :: rest =>
      let m := n * 10 + digitValue b
      if largestExponent < m then .error rest.length else go m rest

/-- The value of a numeral. If it is beyond all floats, the answer is how many bytes of the numeral
come after the place where this shows. -/
def Numeral.value (n : Numeral) : Except Nat Number :=
  let m := n.significand
  let real (x : Float) : Number := .real (if n.negative then -x else x)
  if n.isWhole ∧ m.exponent = 0 then
    if ¬ n.negative then .ok (.integer m.digits)
    else if 0 < m.digits ∧ m.digits ≤ 0x8000000000000000 then .ok (.integer (-m.digits))
    else .ok (real m.digits.toUInt64.toFloat)
  else
    let size := m.digits.toUInt64.toFloat
    let exponent : Except Nat Int :=
      match n.exponent with
      | none => .ok 0
      | some (false, ds) => (exponentValue ds).map Int.ofNat
      | some (true, ds) => (exponentValue ds).map fun e => -(e : Int)
    match exponent, n.exponent with
    | .ok e, _ =>
      match scaled? size (m.exponent + e) with
      | some x => .ok (real x)
      | none => .error 0
    | .error left, some (false, _) => if m.digits = 0 then .ok (real 0) else .error left
    | .error _, _ => .ok (real 0)

/-- A number whose sign, if it has one, was read. -/
def scanNumber (negative : Bool) (s : Bytes) : Except Fault (Parsed Number s) := do
  let p ← scanNumeral .endOfValue negative s
  match p.value.value with
  | .ok n => .ok ⟨n, p.rest, p.shorter⟩
  | .error left => .error { cause := .outOfRange, left := p.rest.length + left }

end CodeReview.Json
