import CodeReview.Report.Basic

/-!
Metrics of a text of code. Nothing is parsed: a line counts when it shows something, and each
branching keyword and each logical operator counts as one more path through the code. From these two
counts follow an index of how maintainable the code is and an estimate of the work to clean it up.
-/

namespace CodeReview.Metrics

/-! ### Lines -/

/-- A character that can be seen. A byte order mark cannot. -/
def shows (c : Char) : Bool :=
  !Text.isBlank c && c != '\uFEFF'

/-- The lines so far that show something, and whether the last line does. -/
structure LineTally where
  full : Nat
  showing : Bool
deriving DecidableEq, Repr

def LineTally.add (t : LineTally) (c : Char) : LineTally :=
  if c = '\n' then ⟨t.full + t.showing.toNat, false⟩ else ⟨t.full, t.showing || shows c⟩

def LineTally.count (t : LineTally) : Nat :=
  t.full + t.showing.toNat

/-- The lines with a character that can be seen. -/
def countLines (code : String) : Nat :=
  (code.toList.foldl LineTally.add ⟨0, false⟩).count

/-! ### Branches -/

/-- The words that open a branch. -/
def branchWords : List (List Char) :=
  ["if", "else", "while", "for", "switch", "case", "catch"].map String.toList

/-- A letter, a digit or an underscore. Only ASCII characters make up words. -/
def isWordChar (c : Char) : Bool :=
  c.isAlphanum || c = '_'

/-- No word goes on at the start of this text. -/
def wordEnds (cs : List Char) : Bool :=
  !cs.head?.any isWordChar

/-- The branch word that the text starts with, as a whole word. -/
def branchWordAt? (cs : List Char) : Option (List Char) :=
  branchWords.find? fun w => w.isPrefixOf cs && wordEnds (cs.drop w.length)

/-- The branch words of a text, found from left to right. `inWord` says that the character before
the text belongs to a word; `n` words were found before. -/
def countBranchWords (inWord : Bool) (n : Nat) (cs : List Char) : Nat :=
  match cs with
  | [] => n
  | c :: rest =>
    match if inWord then none else branchWordAt? (c :: rest) with
    | some w => countBranchWords true (n + 1) (rest.drop (w.length - 1))
    | none => countBranchWords (isWordChar c) n rest
termination_by cs.length
decreasing_by
  · simp only [List.length_cons, List.length_drop]; omega
  · simp

/-- How often a character stands twice, pair after pair. -/
def countPairs (op : Char) (n : Nat) : List Char → Nat
  | a :: b :: rest =>
    if a = op ∧ b = op then countPairs op (n + 1) rest else countPairs op n (b :: rest)
  | _ => n

/-- One path through the code, and one more for each branch word and each logical operator. -/
def countPaths (code : String) : Nat :=
  1 + countBranchWords false 0 code.toList +
    (countPairs '&' 0 code.toList + countPairs '|' 0 code.toList)

/-! ### Scores -/

/-- From 0 to 100. Each path and each doubling of the size lowers the index. -/
def maintainability (lines paths : UInt64) : UInt8 :=
  let size := (max lines 1).toFloat
  let raw := 171.0 - 5.2 * size.log - 0.23 * paths.toFloat
  let clamped := if raw < 0.0 then 0.0 else if 100.0 < raw then 100.0 else raw
  (Decimal.roundToNat .up clamped).toUInt8

/-- Hours of work: half an hour for each path beyond ten, and an hour for each hundred lines beyond
fifty, but not less than nothing. One decimal place is kept; a half goes up. -/
def debt (lines paths : UInt64) : Float :=
  let complexity := (paths.toFloat - 10.0) * 0.5
  let size := (lines.toNat - 50).toUInt64.toFloat * 0.01
  let total := complexity + size
  let hours := if 0.0 < total then total else 0.0
  Float.ofNat (Decimal.roundToNat .up (hours * 10.0)) / 10.0

/-- The metrics of a text of code. -/
def ofCode (code : String) : Metrics :=
  let lines := (countLines code).toUInt64
  let paths := (countPaths code).toUInt64
  { linesOfCode := lines
    cyclomaticComplexity := paths
    maintainabilityIndex := maintainability lines paths
    technicalDebt := debt lines paths
    testCoverage := none }

end CodeReview.Metrics
