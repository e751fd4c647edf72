import CodeReview.Json.Numeral

/-!
The first byte of a value says what the value is: a word, a number, a text, or a container that
opens. What is made of numbers and texts is left to who reads the value.
-/

namespace CodeReview.Json

inductive Container where
  | list
  | object
deriving DecidableEq

/-- What is made of the values that are no containers. The sign of a number and the opening mark of
a text were read when its turn comes. -/
structure Leaves (α : Type) where
  null : α
  bool : Bool → α
  number : (negative : Bool) → (s : Bytes) → Except Fault (Parsed α s)
  text : (s : Bytes) → Except Fault (Parsed α s)

/-- What a text starts with: a whole value that is no container, or the opening bracket of a
container. -/
inductive Head (α : Type) (s : Bytes) where
  | scalar (p : Parsed α s)
  | container (c : Container) (p : Parsed Unit s)

/-- The head of a text, after blanks. -/
def Leaves.head (leaves : Leaves α) (s : Bytes) : Except Fault (Head α s) := do
  match next s with
  | none => .error (.before .endOfValue [])
  | some p =>
    let b := p.value
    let after (a : α) (r : Rest p.rest) : Head α s :=
      .scalar ⟨a, r.1, p.length_rest_lt r⟩
    if b = byte 'n' then return after leaves.null (← word [byte 'u', byte 'l', byte 'l'] p.rest)
    else if b = byte 't' then
      return after (leaves.bool true) (← word [byte 'r', byte 'u', byte 'e'] p.rest)
    else if b = byte 'f' then
      return after (leaves.bool false)
        (← word [byte 'a', byte 'l', byte 's', byte 'e'] p.rest)
    else if b = byte '-' then
      let n ← leaves.number true p.rest
      return .scalar (n.widen p.length_le)
    else if isDigit b then
      let n ← leaves.number false (b :: p.rest)
      return .scalar (n.widen p.shorter)
    else if b = byte '"' then
      let t ← leaves.text p.rest
      return .scalar (t.widen p.length_le)
    else if b = byte '[' then return .container .list ⟨(), p.rest, p.shorter⟩
    else if b = byte '{' then return .container .object ⟨(), p.rest, p.shorter⟩
    else .error (.before .expectedValue p.rest)

end CodeReview.Json
