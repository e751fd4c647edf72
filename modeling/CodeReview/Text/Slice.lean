import CodeReview.Text.Utf8

/-!
Parts of a text between two places. A place is counted in bytes, and a text can only be cut between
its characters: where a place falls into a character there is no part.
-/

namespace CodeReview.Text

/-- The place of the first byte of the character, which is ASCII. -/
def find? (c : Char) (b : List UInt8) : Option Nat :=
  b.findIdx? (· == c.toUInt8)

/-- The place of the last byte of the character, which is ASCII. -/
def rfind? (c : Char) (b : List UInt8) : Option Nat :=
  (b.reverse.findIdx? (· == c.toUInt8)).map fun i => b.length - 1 - i

/-- The place lies between characters: at an end, or before a byte that continues none. -/
def isBoundary (b : List UInt8) (i : Nat) : Bool :=
  i == 0 || i == b.length || b[i]?.any fun x => x < 0x80 || 0xC0 ≤ x

/-- The part of a text from one place up to another. -/
def slice? (s : String) (start stop : Nat) : Option String :=
  let b := bytes s
  if start ≤ stop && isBoundary b start && isBoundary b stop then
    ofBytes? ((b.take stop).drop start)
  else none

end CodeReview.Text
