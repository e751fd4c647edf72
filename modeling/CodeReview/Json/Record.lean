import CodeReview.Json.Reader

/-!
Records: values with a fixed list of members. A record is written as an object, whose unknown
members are passed over, or as the list of its members in their order. The shape of a record says
what its members are called, which of them must be there, and how each is read.
-/

namespace CodeReview.Json

/-- Whether a member may be absent. -/
inductive Presence where
  /-- It must be there. -/
  | required
  /-- An object may leave it out. -/
  | optional
  /-- An object may leave it out, and a list may end before it. -/
  | defaulted
deriving DecidableEq

/-- A member of a record, and how what is read for it changes the record. -/
structure Member (ρ : Type) where
  key : String
  presence : Presence
  read : Reader (ρ → ρ)

/-- How records of a type are read. `blank` is the record of which no member was read. -/
structure Shape (ρ : Type) where
  name : String
  blank : ρ
  members : List (Member ρ)

def member (key : String) (presence : Presence) (r : Reader α) (set : α → ρ → ρ) : Member ρ :=
  ⟨key, presence, r.map set⟩

/-- The keys that were read so far, and the record with their values. -/
structure Partial (ρ : Type) where
  seen : List String
  record : ρ

/-- What is left when an error about the members ends a record: a closing bracket counts as
read. -/
def closed (closing : UInt8) (s : Bytes) : Bytes :=
  match next s with
  | some p => if p.value = closing then p.rest else skipSpace s
  | none => []

/-- One member of an object, after its name. -/
def Shape.memberAfter (shape : Shape ρ) (depth : Nat) (name : String) (state : Partial ρ)
    (s : Bytes) : Except Fault (Parsed (Partial ρ) s) :=
  match shape.members.find? fun m => m.key = name with
  | none => (memberValue name skip s).map (Parsed.map fun _ => state)
  | some m =>
    if m.key ∈ state.seen then .error (.before (.duplicateField m.key) (closed (byte '}') s))
    else
      (memberValue name (m.read depth) s).map
        (Parsed.map fun set => ⟨m.key :: state.seen, set state.record⟩)

/-- The first member that must be there and is not. -/
def Shape.missing? (shape : Shape ρ) (seen : List String) : Option String :=
  (shape.members.find? fun m => m.presence = .required ∧ m.key ∉ seen).map Member.key

/-- A record written as an object whose opening bracket was read. -/
def Shape.ofObject {s : Bytes} (shape : Shape ρ) (depth : Nat) (p : Parsed Unit s) :
    Except Fault (Parsed ρ s) := do
  let q ← membersFrom (shape.memberAfter depth) (⟨[], shape.blank⟩ : Partial ρ) p
  match shape.missing? q.value.seen with
  | some key => .error (.before (.missingField key) q.rest)
  | none => .ok ⟨q.value.record, q.rest, q.shorter⟩

/-- The closing bracket after all members of a record that is written as a list. -/
def listEnd (s : Bytes) : Except Fault (Parsed Unit s) :=
  match next s with
  | none => .error (.before .endOfList [])
  | some p =>
    if p.value = byte ']' then .ok ⟨(), p.rest, p.shorter⟩
    else if p.value = byte ',' then
      match next p.rest with
      | none => .error (.before .trailingCharacters [])
      | some q =>
        if q.value = byte ']' then .error (.before .trailingComma q.rest)
        else .error (.before .trailingCharacters q.rest)
    else .error (.before .trailingCharacters p.rest)

/-- The place at which the item with number `n` starts, or nothing at the end of the list. -/
def nextItem (n : Nat) (s : Bytes) : Except Fault (Option (Rest s)) :=
  match next s with
  | none => .error (.before .endOfList [])
  | some p =>
    if p.value = byte ']' then .ok none
    else if n = 0 then .ok (some ⟨s, length_le_refl s⟩)
    else if p.value = byte ',' then
      match next p.rest with
      | none => .error (.before .endOfValue [])
      | some q =>
        if q.value = byte ']' then .error (.before .trailingComma q.rest)
        else .ok (some ⟨p.rest, p.length_le⟩)
    else .error (.before .expectedListEnd p.rest)

/-- The members of a record that is written as a list, from the member with number `n` on. -/
def Shape.itemsAfter (shape : Shape ρ) (depth n : Nat) (record : ρ) (s : Bytes) :
    List (Member ρ) → Except Fault (Parsed ρ s)
  | [] => (listEnd s).map (Parsed.map fun _ => record)
  | m :: rest => do
    match ← nextItem n s with
    | none =>
      if m.presence = .defaulted then shape.itemsAfter depth (n + 1) record s rest
      else
        .error (.before (.wrongLength n shape.name shape.members.length) (closed (byte ']') s))
    | some t =>
      let p ← within (.index n) (m.read depth t.1)
      let q ← shape.itemsAfter depth (n + 1) (p.value record) p.rest rest
      .ok (q.widen (Nat.le_trans (Nat.le_of_lt p.shorter) t.2))

def Shape.reader (shape : Shape ρ) : Reader ρ := fun depth s => do
  match ← head s with
  | .container c p =>
    match depth with
    | 0 => .error (tooDeep p)
    | depth + 1 =>
      match c with
      | .list =>
        (shape.itemsAfter depth 0 shape.blank p.rest shape.members).map
          fun q => q.widen p.length_le
      | .object => shape.ofObject depth p
  | other => .error (other.mismatch (.record shape.name))

end CodeReview.Json
