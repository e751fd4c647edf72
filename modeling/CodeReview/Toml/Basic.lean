import CodeReview.Assoc

/-!
TOML documents as values, and the rules by which the lines of a document add up to a table. A table
may be opened by a header once, names between dots open tables of their own, and what was closed by
one way of writing is not reopened by another.
-/

namespace CodeReview

inductive Toml where
  | text (s : String)
  | integer (n : Int)
  | real (x : Float)
  | bool (b : Bool)
  /-- A date, a time, or both. What it says is of no use here. -/
  | moment
  | list (items : List Toml)
  | table (entries : List (String × Toml))

namespace Toml

/-- How a table came to be. -/
inductive Origin where
  /-- By a header of its own. -/
  | header
  /-- On the way to the header of a table inside of it. -/
  | implied
  /-- By a name before a dot. -/
  | dotted
deriving DecidableEq, Repr

/-- A table under construction. -/
inductive Node where
  | value (v : Toml)
  | table (origin : Origin) (entries : List (String × Node))
  /-- Tables with the same header, the last one first. -/
  | tables (elements : List (List (String × Node)))

abbrev Entries := List (String × Node)

/-- A change of a table. -/
abbrev Change := Origin → Entries → Option Entries

/-- The change of the table at the end of a path. Tables that are not there yet are made. Where the
path comes from a dotted name, it does not lead into tables that have a header. -/
def change (dotted : Bool) (f : Change) : List String → Change
  | [], origin, entries => f origin entries
  | key :: path, _, entries =>
    match entries.lookup key with
    | none =>
      let origin := if dotted then .dotted else .implied
      (change dotted f path origin []).map fun es => Assoc.put key (.table origin es) entries
    | some (.value _) => none
    | some (.tables []) => none
    | some (.tables (last :: before)) =>
      (change dotted f path .header last).map fun es =>
        Assoc.put key (.tables (es :: before)) entries
    | some (.table origin es) =>
      if dotted ∧ origin = .header then none
      else
        (change dotted f path origin es).map fun es => Assoc.put key (.table origin es) entries

/-- The last name of a path, after those before it. -/
def splitLast : List String → Option (List String × String)
  | [] => none
  | [key] => some ([], key)
  | key :: rest => (splitLast rest).map fun p => (key :: p.1, p.2)

/-- A value under a name, which may have dots. -/
def assign (path : List String) (v : Toml) : Change := fun origin entries => do
  let (front, key) ← splitLast path
  let add : Change := fun origin entries =>
    if front ≠ [] ∧ origin ≠ .dotted then none
    else
      match entries.lookup key with
      | some _ => none
      | none => some (entries ++ [(key, .value v)])
  change true add front origin entries

/-- The header of a table. -/
def openTable (path : List String) : Change := fun origin entries => do
  let (front, key) ← splitLast path
  let add : Change := fun _ entries =>
    match entries.lookup key with
    | none => some (entries ++ [(key, .table .header [])])
    | some (.table .implied es) => some (Assoc.put key (.table .header es) entries)
    | some _ => none
  change false add front origin entries

/-- The header of one more of several tables. -/
def openElement (path : List String) : Change := fun origin entries => do
  let (front, key) ← splitLast path
  let add : Change := fun _ entries =>
    match entries.lookup key with
    | none => some (entries ++ [(key, .tables [[]])])
    | some (.tables es) => some (Assoc.put key (.tables ([] :: es)) entries)
    | some _ => none
  change false add front origin entries

/-- A value under a name in the table whose header is the last one. -/
def assignIn (header path : List String) (v : Toml) : Change :=
  change false (assign path v) header

mutual

/-- The finished value. -/
def Node.finish : Node → Toml
  | .value v => v
  | .table _ entries => .table (finishEntries entries)
  | .tables elements => .list (finishElements elements).reverse

def finishEntries : List (String × Node) → List (String × Toml)
  | [] => []
  | (key, node) :: rest => (key, node.finish) :: finishEntries rest

def finishElements : List (List (String × Node)) → List Toml
  | [] => []
  | entries :: rest => .table (finishEntries entries) :: finishElements rest

end

/-- The value of an entry of a table. -/
def entry? (key : String) : Toml → Option Toml
  | .table entries => entries.lookup key
  | _ => none

end Toml

end CodeReview
