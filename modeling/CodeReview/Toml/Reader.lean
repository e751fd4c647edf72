import CodeReview.Toml.Token

/-!
TOML documents, line by line. A document that breaks any rule has no value; which rule it was does
not matter.
-/

namespace CodeReview.Toml

/-- Lists and tables inside of each other may be open at a time up to this number. -/
def maxDepth : Nat := 79

/-- A name on one side of a dot. -/
def name : Scan String := fun s =>
  match h : s with
  | [] => none
  | c :: rest =>
    if c = '"' ∨ c = '\x27' then (shortText s).map fun p => p.widen (by simp [h])
    else
      let isBare (c : Char) : Bool := c.isAlphanum || c = '_' || c = '-'
      if isBare c then
        let r := dropped isBare rest
        some ⟨String.ofList (c :: rest.takeWhile isBare), r.1, Nat.lt_succ_of_le r.2⟩
      else none

theorem length_after_name {s start r : Chars} (p : Parsed String (skipSpace s).1)
    (h : s.length ≤ start.length) (hr : (skipSpace p.rest).1 = r) : r.length < start.length :=
  hr ▸ Nat.lt_of_lt_of_le (p.length_rest_lt (skipSpace p.rest)) (Nat.le_trans (skipSpace s).2 h)

/-- Names with dots between them. -/
def path (start s : Chars) (h : s.length ≤ start.length) (done : List String) :
    Option (Parsed (List String) start) :=
  match name (skipSpace s).1 with
  | none => none
  | some p =>
    let r := skipSpace p.rest
    match hr : r.1 with
    | [] => some ⟨(p.value :: done).reverse, [], length_after_name p h hr⟩
    | c :: rest =>
      if c = '.' then
        path start rest (length_le_of_cons_le (Nat.le_of_lt (length_after_name p h hr)))
          (p.value :: done)
      else some ⟨(p.value :: done).reverse, c :: rest, length_after_name p h hr⟩
termination_by s.length
decreasing_by
  exact Nat.lt_trans (length_tail_lt c rest) (length_after_name p (length_le_refl s) hr)

/-- A path, if it is not longer than containers may be deep. -/
def keyPath (s : Chars) : Option (Parsed (List String) s) :=
  (path s s (length_le_refl s) []).filter fun p => p.value.length ≤ maxDepth

/-- A path, an equals sign and a value. -/
def assignment (value : Scan Toml) : Scan (List String × Toml) := fun s => do
  let k ← keyPath s
  match h : k.rest with
  | '=' :: rest =>
    let v ← value (skipSpace rest).1
    some ⟨(k.value, v.value), v.rest, by
      have := k.shorter; have := v.shorter; have := (skipSpace rest).2; simp [h] at *; omega⟩
  | _ => none

/-- The items of a list up to its closing bracket, after an opening bracket or a comma. -/
def items (value : Scan Toml) (start s : Chars) (h : s.length ≤ start.length) (done : List Toml) :
    Option (Parsed (List Toml) start) :=
  let r := skipLines s
  match hr : r.1 with
  | ']' :: rest =>
    some ⟨done.reverse, rest, by have h₁ := r.2; simp [hr] at h₁; omega⟩
  | _ =>
    match value r.1 with
    | none => none
    | some p =>
      let q := skipLines p.rest
      match hq : q.1 with
      | ',' :: rest =>
        items value start rest
          (by have h₁ := q.2; have := p.shorter; have := r.2; simp [hq] at h₁; omega)
          (p.value :: done)
      | ']' :: rest =>
        some ⟨(p.value :: done).reverse, rest, by
          have h₁ := q.2; have := p.shorter; have := r.2; simp [hq] at h₁; omega⟩
      | _ => none
termination_by s.length
decreasing_by
  have h₁ := q.2; have := p.shorter; have := r.2; simp [hq] at h₁; omega

/-- The assignments of a table on one line up to its closing brace, of which one comes next. -/
def members (value : Scan Toml) (start s : Chars) (h : s.length ≤ start.length)
    (done : List (List String × Toml)) : Option (Parsed (List (List String × Toml)) start) :=
  match assignment value s with
  | none => none
  | some p =>
    let q := skipSpace p.rest
    match hq : q.1 with
    | ',' :: rest =>
      members value start rest
        (by have h₁ := q.2; have := p.shorter; simp [hq] at h₁; omega)
        (p.value :: done)
    | '}' :: rest =>
      some ⟨(p.value :: done).reverse, rest, by
        have h₁ := q.2; have := p.shorter; simp [hq] at h₁; omega⟩
    | _ => none
termination_by s.length
decreasing_by
  have h₁ := q.2; have := p.shorter; simp [hq] at h₁; omega

/-- The table that assignments add up to. -/
def tableOf? (assignments : List (List String × Toml)) : Option Toml :=
  (assignments.foldlM (fun entries a => assign a.1 a.2 .header entries) []).map fun entries =>
    (Node.table .header entries).finish

/-- A table on one line whose opening brace was read. -/
def inlineTable (value : Scan Toml) : Scan Toml := fun s =>
  let r := skipSpace s
  match h : r.1 with
  | '}' :: rest => some ⟨.table [], rest, by have h₁ := r.2; rw [h] at h₁; exact h₁⟩
  | _ => do
    let p ← members value s r.1 r.2 []
    let t ← tableOf? p.value
    some ⟨t, p.rest, p.shorter⟩

/-- A value, inside of which so many containers may be open. -/
def value : Nat → Scan Toml
  | 0, s => match s with
    | [] => none
    | c :: rest =>
      if c = '"' ∨ c = '\x27' then (anyText (c :: rest)).map (Parsed.map .text)
      else scalar (c :: rest)
  | depth + 1, s => match s with
    | [] => none
    | c :: rest =>
      if c = '[' then
        (items (value depth) rest rest (length_le_refl rest) []).map fun p =>
          (p.map .list).widen (length_tail_le c rest)
      else if c = '{' then
        (inlineTable (value depth) rest).map fun p => p.widen (length_tail_le c rest)
      else if c = '"' ∨ c = '\x27' then (anyText (c :: rest)).map (Parsed.map .text)
      else scalar (c :: rest)

/-- A document that was read up to some line: its table, and the path of the last header. -/
structure Draft where
  entries : Entries
  header : List String

/-- The path between the brackets of a header; so many opening brackets were read. -/
def headerPath (brackets : Nat) (s : Chars) : Option (Parsed (List String) s) := do
  let p ← keyPath s
  if p.rest.take brackets = List.replicate brackets ']' then
    some ⟨p.value, p.rest.drop brackets, by have := p.shorter; simp; omega⟩
  else none

/-- What one line does to a document. -/
def line (draft : Draft) : Scan Draft
  | [] => none
  | '[' :: '[' :: rest => do
    let p ← headerPath 2 rest
    let entries ← openElement p.value .header draft.entries
    some ((p.map fun path => ⟨entries, path⟩).widen
      (Nat.le_succ_of_le (length_tail_le '[' rest)))
  | '[' :: rest => do
    let p ← headerPath 1 rest
    let entries ← openTable p.value .header draft.entries
    some ((p.map fun path => ⟨entries, path⟩).widen (length_tail_le '[' rest))
  | s => do
    let p ← assignment (value maxDepth) s
    let entries ← assignIn draft.header p.value.1 p.value.2 .header draft.entries
    some (p.map fun _ => ⟨entries, draft.header⟩)

/-- The lines of a document. -/
def document (s : Chars) (draft : Draft) : Option Entries :=
  let r := skipLines s
  if r.1 = [] then some draft.entries
  else
    match line draft r.1 with
    | none => none
    | some p =>
      match lineEnd p.rest with
      | none => none
      | some e => document e.1 p.value
termination_by s.length
decreasing_by
  have := r.2; have := p.shorter; have := e.2; omega

/-- The table that a text writes. A byte order mark may stand before it. -/
def ofText? (s : String) : Option Toml :=
  let cs := match s.toList with
    | '\uFEFF' :: rest => rest
    | cs => cs
  (document cs ⟨[], []⟩).map fun entries => (Node.table .header entries).finish

end CodeReview.Toml
