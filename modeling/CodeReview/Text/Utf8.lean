/-!
Texts as bytes. `bytes` and `ofBytes?` go between a text and its UTF-8 form. A byte sequence that
is not UTF-8 is measured by `validLength` and repaired by `ofBytesLossy`, which puts U+FFFD in the
place of each longest sequence that starts like a character and does not end like one.
-/

namespace CodeReview.Text

def bytes (s : String) : List UInt8 :=
  s.toUTF8.toList

def ofBytes? (b : List UInt8) : Option String :=
  String.fromUTF8? ⟨b.toArray⟩

/-- The ranges of the bytes that may follow a first byte, in order. A first byte that starts no
character has no entry. -/
def continuations (b : UInt8) : Option (List (UInt8 × UInt8)) :=
  if b < 0x80 then some []
  else if b < 0xC2 then none
  else if b < 0xE0 then some [(0x80, 0xBF)]
  else if b = 0xE0 then some [(0xA0, 0xBF), (0x80, 0xBF)]
  else if b = 0xED then some [(0x80, 0x9F), (0x80, 0xBF)]
  else if b < 0xF0 then some [(0x80, 0xBF), (0x80, 0xBF)]
  else if b = 0xF0 then some [(0x90, 0xBF), (0x80, 0xBF), (0x80, 0xBF)]
  else if b < 0xF4 then some [(0x80, 0xBF), (0x80, 0xBF), (0x80, 0xBF)]
  else if b = 0xF4 then some [(0x80, 0x8F), (0x80, 0xBF), (0x80, 0xBF)]
  else none

/-- How many of the ranges the bytes follow, one byte a range. -/
def followed : List (UInt8 × UInt8) → List UInt8 → Nat
  | (lo, hi) :: ranges, b :: rest => if lo ≤ b && b ≤ hi then followed ranges rest + 1 else 0
  | _, _ => 0

/-- The piece at the start of a byte sequence: its length after the first byte, and whether it is
the form of a character. -/
def piece (b : UInt8) (rest : List UInt8) : Nat × Bool :=
  match continuations b with
  | none => (0, false)
  | some ranges => let n := followed ranges rest; (n, n == ranges.length)

/-- The length of the longest start of the bytes that is UTF-8. -/
def validLength (b : List UInt8) : Nat :=
  go b 0
where
  go (b : List UInt8) (n : Nat) : Nat :=
    match b with
    | [] => n
    | b :: rest =>
      let p := piece b rest
      if p.2 then go (rest.drop p.1) (n + 1 + p.1) else n
  termination_by b.length
  decreasing_by
    simp only [List.length_cons, List.length_drop]
    omega

/-- The text of the bytes, with U+FFFD for each piece that is no character. -/
def ofBytesLossy (b : List UInt8) : String :=
  (ofBytes? (go b [])).getD ""
where
  go (b : List UInt8) (done : List UInt8) : List UInt8 :=
    match b with
    | [] => done.reverse
    | b :: rest =>
      let p := piece b rest
      let shown := if p.2 then b :: rest.take p.1 else [0xEF, 0xBF, 0xBD]
      go (rest.drop p.1) (shown.reverse ++ done)
  termination_by b.length
  decreasing_by
    simp only [List.length_cons, List.length_drop]
    omega

end CodeReview.Text
