import CodeReview.Json.Head

/-!
Values that nobody asked for. They are passed over with a check of their syntax only: they may nest
to any depth, their numbers may have any size, and their texts need not make sense.
-/

namespace CodeReview.Json

/-- The bracket that ends a container. -/
def Container.closing : Container → UInt8
  | .list => byte ']'
  | .object => byte '}'

/-- What is wrong when the document ends inside of the container. -/
def Container.atEnd : Container → Cause
  | .list => .endOfList
  | .object => .endOfObject

/-- What is wrong when neither a comma nor the closing bracket follows a value. -/
def Container.unclosed : Container → Cause
  | .list => .expectedListEnd
  | .object => .expectedObjectEnd

/-- A text whose opening mark was read. A control character stays unread. -/
def skipText (start s : Bytes) (h : s.length ≤ start.length) : Except Fault (Parsed Unit start) :=
  match s with
  | [] => .error (.before .endOfText [])
  | b :: rest =>
    if b = byte '"' then .ok ⟨(), rest, h⟩
    else if b = byte '\\' then
      match rest with
      | [] => .error (.before .endOfText [])
      | c :: after =>
        if (shortEscape? c).isSome then
          skipText start after (length_le_of_cons_le (length_le_of_cons_le h))
        else if c = byte 'u' then do
          let p ← hexUnit after
          skipText start p.rest (p.length_le_of_cons_le (length_le_of_cons_le h))
        else .error (.before .badEscape after)
    else if b < 0x20 then .error (.before .controlCharacter (b :: rest))
    else skipText start rest (length_le_of_cons_le h)
termination_by s.length
decreasing_by
  · exact Nat.lt_succ_of_lt (length_tail_lt c after)
  · exact Nat.lt_succ_of_lt p.length_lt_cons
  · exact length_tail_lt b rest

/-- The colon after the name of a member. -/
def colon (s : Bytes) : Except Fault (Parsed Unit s) :=
  match next s with
  | none => .error (.before .endOfObject [])
  | some p =>
    if p.value = byte ':' then .ok ⟨(), p.rest, p.shorter⟩
    else .error (.before .expectedColon p.rest)

/-- The name of a member and its colon. `atEnd` is what is wrong when the document ends before
it. -/
def skipKey (s : Bytes) : Except Fault (Parsed Unit s) :=
  match next s with
  | none => .error (.before .endOfObject [])
  | some q =>
    if q.value = byte '"' then do
      let name ← skipText q.rest q.rest (Nat.le_refl _)
      let c ← colon name.rest
      .ok ⟨(), c.rest,
        by have := q.shorter; have := name.shorter; have := c.shorter; omega⟩
    else .error (.before .keyNotText q.rest)

/-- What comes next while values are passed over. -/
inductive Stage where
  /-- A value. -/
  | value
  /-- The closing bracket or the first item, after an opening bracket. -/
  | opened
  /-- A comma or a closing bracket, after a value. -/
  | closed
deriving DecidableEq

/-- Numbers and texts of which nothing is kept. -/
def skippedLeaves : Leaves Unit where
  null := ()
  bool := fun _ => ()
  number := fun negative s => (scanNumeral .badNumber negative s).map (Parsed.map fun _ => ())
  text := fun s => skipText s s (length_le_refl s)

/-- One value. `outer` are the containers that are open, the innermost one first. -/
def skipFrom (start : Bytes) (stage : Stage) (outer : List Container) (s : Bytes)
    (h : s.length < start.length ∨ (stage = .value ∧ s.length ≤ start.length)) :
    Except Fault (Parsed Unit start) :=
  match stage, outer with
  | .value, outer => do
    match ← skippedLeaves.head s with
    | .scalar p => skipFrom start .closed outer p.rest (by have := p.shorter; omega)
    | .container c p =>
      skipFrom start .opened (c :: outer) p.rest (by have := p.shorter; omega)
  | .closed, [] => .ok ⟨(), s, by simp at h; exact h⟩
  | .opened, [] => .ok ⟨(), s, by simp at h; exact h⟩
  | .closed, c :: outer =>
    match next s with
    | none => .error (.before c.atEnd [])
    | some p =>
      if p.value = byte ',' then
        match c with
        | .list =>
          skipFrom start .value (.list :: outer) p.rest
            (by have := p.shorter; simp at h; omega)
        | .object => do
          let k ← skipKey p.rest
          skipFrom start .value (.object :: outer) k.rest
            (by have := p.shorter; have := k.shorter; simp at h; omega)
      else if p.value = c.closing then
        skipFrom start .closed outer p.rest (by have := p.shorter; simp at h; omega)
      else .error (.before c.unclosed p.rest)
  | .opened, c :: outer =>
    match next s with
    | none => .error (.before c.atEnd [])
    | some p =>
      if p.value = c.closing then
        skipFrom start .closed outer p.rest (by have := p.shorter; simp at h; omega)
      else
        match c with
        | .list => skipFrom start .value (.list :: outer) s (by simp at h; omega)
        | .object => do
          let k ← skipKey s
          skipFrom start .value (.object :: outer) k.rest (by have := k.shorter; simp at h; omega)
termination_by (s.length, if stage = .opened then 1 else 0)
decreasing_by
  all_goals simp_wf
  · have := p.shorter; exact .left _ _ this
  · have := p.shorter; exact .left _ _ this
  · have := p.shorter; exact .left _ _ this
  · have := p.shorter; have := k.shorter; exact .left _ _ (by omega)
  · have := p.shorter; exact .left _ _ this
  · have := p.shorter; exact .left _ _ this
  · exact .right _ (by decide)
  · have := k.shorter; exact .left _ _ this

/-- One value, whatever it is. -/
def skip (s : Bytes) : Except Fault (Parsed Unit s) :=
  skipFrom s .value [] s (.inr ⟨rfl, Nat.le_refl _⟩)

end CodeReview.Json
