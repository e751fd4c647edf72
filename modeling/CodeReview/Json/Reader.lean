import CodeReview.Json.Skip

/-!
Readers of values. A reader is given the number of containers that may still be opened, so that
documents cannot nest without a bound, and it ends at the first fault. A value of the wrong kind is
a fault after that value, but before the content of a container.
-/

namespace CodeReview.Json

/-- How to read a value from the start of a text, for each number of containers that may still be
opened. -/
def Reader (α : Type) := (depth : Nat) → (s : Bytes) → Except Fault (Parsed α s)

/-- The number of containers that may be open at a time. -/
def maxDepth : Nat := 127

/-- What is read, passed on to a function. -/
def Reader.map (f : α → β) (r : Reader α) : Reader β :=
  fun depth s => (r depth s).map (Parsed.map f)

/-! ### Heads -/

/-- A value that is no container. -/
inductive Scalar where
  | null
  | bool (b : Bool)
  | number (n : Number)
  | text (s : String)

/-- Numbers and texts with their values. -/
def scalarLeaves : Leaves Scalar where
  null := .null
  bool := .bool
  number := fun negative s => (scanNumber negative s).map (Parsed.map .number)
  text := fun s => (scanText s).map (Parsed.map .text)

/-- The head of a text: a scalar, or the opening bracket of a container. -/
def head (s : Bytes) : Except Fault (Head Scalar s) :=
  scalarLeaves.head s

def Scalar.found : Scalar → Found
  | .null => .null
  | .bool b => .bool b
  | .number (.integer n) => .integer n
  | .number (.real x) => .real x
  | .text s => .text s

/-- The value has another kind than the reader asked for. An opening bracket counts as unread. -/
def Head.mismatch {s : Bytes} (expected : Expected) : Head Scalar s → Fault
  | .scalar p => .before (.wrongKind p.value.found expected) p.rest
  | .container c p =>
    { cause := .wrongKind (match c with | .list => .list | .object => .object) expected
      left := p.rest.length + 1 }

/-- One container more would be open than there may be. -/
def tooDeep {s : Bytes} (opened : Parsed Unit s) : Fault :=
  .before .tooDeep opened.rest

/-! ### Loops -/

/-- The items of a list, of which the first one comes next. `n` counts the items before it, which
`done` holds in reverse. -/
def items (item : (s : Bytes) → Except Fault (Parsed α s)) (start s : Bytes)
    (h : s.length < start.length) (n : Nat) (done : List α) :
    Except Fault (Parsed (List α) start) := do
  let p ← within (.index n) (item s)
  match next p.rest with
  | none => .error (.before .endOfList [])
  | some q =>
    if q.value = byte ']' then
      .ok ⟨(p.value :: done).reverse, q.rest,
        by have := p.shorter; have := q.shorter; omega⟩
    else if q.value = byte ',' then
      match next q.rest with
      | none => .error (.before .endOfValue [])
      | some r =>
        if r.value = byte ']' then .error (.before .trailingComma r.rest)
        else
          items item start q.rest (by have := p.shorter; have := q.shorter; omega) (n + 1)
            (p.value :: done)
    else .error (.before .expectedListEnd q.rest)
termination_by s.length
decreasing_by have := p.shorter; have := q.shorter; omega

/-- The members of an object, of which the name of the first one comes next; its opening mark was
read. `member` reads what follows a name and says what becomes of the state. -/
def members (member : String → σ → (s : Bytes) → Except Fault (Parsed σ s)) (start s : Bytes)
    (h : s.length < start.length) (state : σ) : Except Fault (Parsed σ start) := do
  let name ← scanText s
  let p ← member name.value state name.rest
  match next p.rest with
  | none => .error (.before .endOfObject [])
  | some q =>
    if q.value = byte '}' then
      .ok ⟨p.value, q.rest,
        by have := name.shorter; have := p.shorter; have := q.shorter; omega⟩
    else if q.value = byte ',' then
      match next q.rest with
      | none => .error (.before .endOfValue [])
      | some r =>
        if r.value = byte '"' then
          members member start r.rest
            (by have := name.shorter; have := p.shorter; have := q.shorter
                have := r.shorter; omega)
            p.value
        else if r.value = byte '}' then .error (.before .trailingComma r.rest)
        else .error (.before .keyNotText r.rest)
    else .error (.before .expectedObjectEnd q.rest)
termination_by s.length
decreasing_by
  have := name.shorter; have := p.shorter; have := q.shorter; have := r.shorter; omega

/-- The items of a list whose opening bracket was read. -/
def itemsFrom {s : Bytes} (item : (s : Bytes) → Except Fault (Parsed α s)) (p : Parsed Unit s) :
    Except Fault (Parsed (List α) s) :=
  match next p.rest with
  | none => .error (.before .endOfList [])
  | some q =>
    if q.value = byte ']' then .ok ⟨[], q.rest, Nat.lt_trans q.shorter p.shorter⟩
    else items item s p.rest p.shorter 0 []

/-- The members of an object whose opening bracket was read. -/
def membersFrom {s : Bytes} (member : String → σ → (s : Bytes) → Except Fault (Parsed σ s))
    (state : σ) (p : Parsed Unit s) : Except Fault (Parsed σ s) :=
  match next p.rest with
  | none => .error (.before .endOfObject [])
  | some q =>
    if q.value = byte '}' then .ok ⟨state, q.rest, Nat.lt_trans q.shorter p.shorter⟩
    else if q.value = byte '"' then
      members member s q.rest (Nat.lt_trans q.shorter p.shorter) state
    else .error (.before .keyNotText q.rest)

/-- The value of a member after its name; its faults are reported under that name. -/
def memberValue (name : String) (read : (s : Bytes) → Except Fault (Parsed α s)) (s : Bytes) :
    Except Fault (Parsed α s) := do
  let c ← colon s
  let p ← within (.key name) (read c.rest)
  .ok (p.widen c.length_le)

/-! ### Readers -/

namespace Reader

def text : Reader String := fun _ s => do
  match ← head s with
  | .scalar ⟨.text t, rest, h⟩ => .ok ⟨t, rest, h⟩
  | other => .error (other.mismatch .text)

/-- A whole number from zero to the limit. -/
def natural (width : String) (limit : Nat) : Reader Nat := fun _ s => do
  match ← head s with
  | .scalar ⟨.number (.integer n), rest, h⟩ =>
    if 0 ≤ n ∧ n ≤ limit then .ok ⟨n.toNat, rest, h⟩
    else .error (.before (.wrongValue (.integer n) (.number width)) rest)
  | other => .error (other.mismatch (.number width))

def byteWide : Reader Nat := natural "u8" (UInt8.size - 1)

def port : Reader Nat := natural "u16" (UInt16.size - 1)

def halfWord : Reader Nat := natural "u32" (UInt32.size - 1)

def fullWord : Reader Nat := natural "u64" (UInt64.size - 1)

/-- A count of things that are in memory. -/
def count : Reader Nat := natural "usize" (UInt64.size - 1)

/-- A number of any kind, as a float. -/
def float : Reader Float := fun _ s => do
  match ← head s with
  | .scalar ⟨.number n, rest, h⟩ => .ok ⟨n.toFloat, rest, h⟩
  | other => .error (other.mismatch (.number "f64"))

/-- Null counts as nothing. -/
def optional (read : Reader α) : Reader (Option α) := fun depth s => do
  match next s with
  | some p =>
    if p.value = byte 'n' then
      let r ← word [byte 'u', byte 'l', byte 'l'] p.rest
      .ok ⟨none, r.1, p.length_rest_lt r⟩
    else (read depth s).map (Parsed.map some)
  | none => (read depth s).map (Parsed.map some)

def list (item : Reader α) : Reader (List α) := fun depth s => do
  match ← head s with
  | .container .list p =>
    match depth with
    | 0 => .error (tooDeep p)
    | depth + 1 => itemsFrom (item depth) p
  | other => .error (other.mismatch .list)

/-- Texts under names, sorted by name. Of a name that is given twice the later text counts. -/
def table : Reader (List (String × String)) := fun depth s => do
  match ← head s with
  | .container .object p =>
    match depth with
    | 0 => .error (tooDeep p)
    | depth + 1 =>
      membersFrom
        (fun name state s => (memberValue name (text depth) s).map fun p =>
          p.map fun t => Assoc.putSorted name t state)
        [] p
  | other => .error (other.mismatch .table)

/-- Nothing but null. -/
def unit : Reader Unit := fun _ s => do
  match ← head s with
  | .scalar ⟨.null, rest, h⟩ => .ok ⟨(), rest, h⟩
  | other => .error (other.mismatch .unit)

/-- A name and the bytes after it, checked against the names that are known. -/
def known {s : Bytes} (ofName? : String → Option α) (names : List String) (p : Parsed String s) :
    Except Fault (Parsed α s) :=
  match ofName? p.value with
  | some a => .ok ⟨a, p.rest, p.shorter⟩
  | none => .error (.before (.unknownVariant p.value names) p.rest)

/-- One of some names, as a text or as the only member of an object, with the value null. -/
def choice (ofName? : String → Option α) (names : List String) : Reader α := fun depth s => do
  match next s with
  | none => .error (.before .endOfValue [])
  | some p =>
    if p.value = byte '"' then
      let name ← scanText p.rest
      let a ← known ofName? names name
      .ok (a.widen p.length_le)
    else if p.value = byte '{' then
      match depth with
      | 0 => .error (.before .tooDeep p.rest)
      | depth + 1 =>
        match next p.rest with
        | none => .error (.before .endOfValue [])
        | some q =>
          if q.value = byte '"' then
            let name ← scanText q.rest
            let a ← known ofName? names name
            let u ← memberValue name.value (unit depth) a.rest
            match next u.rest with
            | none => .error (.before .endOfObject [])
            | some e =>
              if e.value = byte '}' then
                .ok ⟨a.value, e.rest,
                  by have := p.shorter; have := q.shorter; have := a.shorter
                     have := u.shorter; have := e.shorter; omega⟩
              else .error { cause := .expectedValue, left := e.rest.length + 1 }
          else do
            let other ← head p.rest
            .error (other.mismatch .variant)
    else .error (.before .expectedValue p.rest)

/-- Any value. -/
def value : Reader Json
  | 0, s => do
    match ← head s with
    | .scalar p => .ok (p.map scalar)
    | .container _ p => .error (tooDeep p)
  | depth + 1, s => do
    match ← head s with
    | .scalar p => .ok (p.map scalar)
    | .container .list p => (itemsFrom (value depth) p).map (Parsed.map .list)
    | .container .object p =>
      (membersFrom
        (fun name state s => (memberValue name (value depth) s).map fun p =>
          p.map fun v => Assoc.put name v state)
        [] p).map (Parsed.map .object)
where
  scalar : Scalar → Json
    | .null => .null
    | .bool b => .bool b
    | .number n => .number n
    | .text s => .text s

end Reader

/-! ### Documents -/

/-- The value at the start of a document. What follows it is not looked at. -/
def readStart (r : Reader α) (document : Bytes) : Except Refusal α :=
  ((r maxDepth document).map Parsed.value).mapError (Fault.refusal document)

/-- The value that is the whole document. -/
def read (r : Reader α) (document : Bytes) : Except Refusal α :=
  let whole : Except Fault α := do
    let p ← r maxDepth document
    match next p.rest with
    | none => .ok p.value
    | some q => .error (.before .trailingCharacters q.rest)
  whole.mapError (Fault.refusal document)

/-- The value that a text writes. -/
def readText (r : Reader α) (s : String) : Except Refusal α :=
  read r (Text.bytes s)

end CodeReview.Json
