/-!
Blank characters and trimming. A character is blank when it has the Unicode property White_Space.
Trimming removes the blank characters at both ends of a text and nothing else.
-/

namespace CodeReview.Text

/-- The code points with the property White_Space, as closed ranges in increasing order. -/
def blankRanges : List (Nat × Nat) :=
  [(0x09, 0x0D), (0x20, 0x20), (0x85, 0x85), (0xA0, 0xA0), (0x1680, 0x1680), (0x2000, 0x200A),
   (0x2028, 0x2029), (0x202F, 0x202F), (0x205F, 0x205F), (0x3000, 0x3000)]

def isBlank (c : Char) : Bool :=
  blankRanges.any fun r => r.1 ≤ c.toNat && c.toNat ≤ r.2

/-- The characters without the blank ones at both ends. -/
def trimChars (cs : List Char) : List Char :=
  ((cs.dropWhile isBlank).reverse.dropWhile isBlank).reverse

def trim (s : String) : String :=
  String.ofList (trimChars s.toList)

/-- A text is blank when it shows nothing: each of its characters is blank. -/
def allBlank (s : String) : Bool :=
  s.toList.all isBlank

/-- The trimmed text, or nothing when only blank characters were there. -/
def nonBlank? (s : String) : Option String :=
  if allBlank s then none else some (trim s)

/-- The text with the letters `A` to `Z` in lower case; no other character changes. -/
def lowerAscii (s : String) : String :=
  s.map Char.toLower

/-- The text with the letters `a` to `z` in upper case; no other character changes. -/
def upperAscii (s : String) : String :=
  s.map Char.toUpper

end CodeReview.Text
