import CodeReview.Decimal.Numeral
import CodeReview.Text.Quoted

/-!
Socket addresses: an IP address of either family and a port, as text and as numbers. Version 4 is
written as four numbers without leading zeros. Version 6 is written in brackets, in groups of
hexadecimal digits, and may leave out one run of zero groups; it is shown with the longest such run
left out.
-/

namespace CodeReview.Net

/-- A reader of the start of a text. -/
abbrev Scan (α : Type) := List Char → Option (α × List Char)

structure Octets where
  a : UInt8
  b : UInt8
  c : UInt8
  d : UInt8
deriving DecidableEq, Repr

/-- An address of version 6: eight groups, and the number of the link that it belongs to. -/
structure Groups where
  groups : List UInt16
  scope : UInt32
  eight : groups.length = 8
deriving DecidableEq, Repr

inductive IpAddress where
  | v4 (octets : Octets)
  | v6 (groups : Groups)
deriving DecidableEq, Repr

structure SocketAddress where
  ip : IpAddress
  port : UInt16
deriving DecidableEq, Repr

/-! ### Reading -/

/-- The character that must come next. -/
def char (c : Char) : Scan Unit
  | d :: rest => if d = c then some ((), rest) else none
  | [] => none

/-- A decimal number up to a limit, with any number of leading zeros. -/
def decimal (limit : Nat) : Scan Nat := fun cs =>
  let ds := cs.takeWhile Decimal.isDigit
  let n := Decimal.valueOf ds
  if ds ≠ [] ∧ n ≤ limit then some (n, cs.dropWhile Decimal.isDigit) else none

/-- A number from 0 to 255 without leading zeros. -/
def octet : Scan UInt8 := fun cs =>
  let ds := cs.takeWhile Decimal.isDigit
  if ds.length ≤ 3 ∧ (ds.head? ≠ some '0' ∨ ds.length = 1) then
    (decimal 255 cs).map fun p => (p.1.toUInt8, p.2)
  else none

def octets : Scan Octets := fun cs => do
  let (a, cs) ← octet cs
  let (_, cs) ← char '.' cs
  let (b, cs) ← octet cs
  let (_, cs) ← char '.' cs
  let (c, cs) ← octet cs
  let (_, cs) ← char '.' cs
  let (d, cs) ← octet cs
  some (⟨a, b, c, d⟩, cs)

/-- One to four hexadecimal digits. -/
def group : Scan UInt16 := fun cs =>
  let ds := cs.takeWhile fun c => (Decimal.digitIn? 16 c).isSome
  if ds ≠ [] ∧ ds.length ≤ 4 then some ((Decimal.valueIn 16 ds).toUInt16, cs.drop ds.length)
  else none

/-- The two groups that four octets stand for. -/
def Octets.asGroups (o : Octets) : List UInt16 :=
  [o.a.toUInt16 * 256 + o.b.toUInt16, o.c.toUInt16 * 256 + o.d.toUInt16]

/-- Up to so many groups with colons between them, and whether they end in four octets, which take
the place of two groups. -/
def groupsUpTo (first : Bool) (cs : List Char) : Nat → List UInt16 × Bool × List Char
  | 0 => ([], false, cs)
  | n + 1 =>
    match if first then some ((), cs) else char ':' cs with
    | none => ([], false, cs)
    | some (_, after) =>
      match if n = 0 then none else octets after with
      | some (o, rest) => (o.asGroups, true, rest)
      | none =>
        match group after with
        | none => ([], false, cs)
        | some (g, rest) =>
          let (gs, four, rest) := groupsUpTo false rest n
          (g :: gs, four, rest)

/-- Eight groups, or fewer with a double colon where zero groups are left out. -/
def eightGroups : Scan { gs : List UInt16 // gs.length = 8 } := fun cs => do
  let (front, four, rest) := groupsUpTo true cs 8
  if h : front.length = 8 then some (⟨front, h⟩, rest)
  else if four then none
  else
    let (_, rest) ← char ':' rest
    let (_, rest) ← char ':' rest
    let (back, _, rest) := groupsUpTo true rest (7 - front.length)
    let all := front ++ List.replicate (8 - front.length - back.length) 0 ++ back
    if h : all.length = 8 then some (⟨all, h⟩, rest) else none

/-- A per cent sign and a number. -/
def scope : Scan UInt32 := fun cs => do
  let (_, cs) ← char '%' cs
  let (n, cs) ← decimal (UInt32.size - 1) cs
  some (n.toUInt32, cs)

def bracketed : Scan Groups := fun cs => do
  let (_, cs) ← char '[' cs
  let (gs, cs) ← eightGroups cs
  let (n, cs) := (scope cs).getD (0, cs)
  let (_, cs) ← char ']' cs
  some (⟨gs.1, n, gs.2⟩, cs)

def ipAddress : Scan IpAddress := fun cs =>
  match octets cs with
  | some (o, rest) => some (.v4 o, rest)
  | none => (bracketed cs).map fun p => (.v6 p.1, p.2)

/-- The address that a text writes, with its port after a colon. -/
def SocketAddress.ofText? (s : String) : Option SocketAddress := do
  let (ip, cs) ← ipAddress s.toList
  let (_, cs) ← char ':' cs
  let (port, cs) ← decimal (UInt16.size - 1) cs
  if cs = [] then some ⟨ip, port.toUInt16⟩ else none

/-! ### Showing -/

def Octets.render (o : Octets) : String :=
  ".".intercalate [toString o.a, toString o.b, toString o.c, toString o.d]

def showGroups (gs : List UInt16) : String :=
  ":".intercalate (gs.map fun g => Text.hexDigits g.toNat)

/-- The number of zero groups at each place, from there on. -/
def zeroRuns : List UInt16 → List Nat
  | [] => []
  | g :: gs =>
    let runs := zeroRuns gs
    (if g = 0 then runs.head?.getD 0 + 1 else 0) :: runs

/-- The octets that the last two groups stand for. -/
def lastOctets (gs : List UInt16) : Octets :=
  let high : UInt16 := gs[6]?.getD 0
  let low : UInt16 := gs[7]?.getD 0
  ⟨(high / 256).toUInt8, high.toUInt8, (low / 256).toUInt8, low.toUInt8⟩

/-- The first of the longest runs of two or more zero groups is left out. An address of version 4 in
the form of version 6 shows its octets. -/
def showEight (gs : List UInt16) : String :=
  if gs.take 6 = [0, 0, 0, 0, 0, 0xFFFF] then "::ffff:" ++ (lastOctets gs).render
  else
    let runs := zeroRuns gs
    let longest := runs.foldl max 0
    if longest < 2 then showGroups gs
    else
      let start := runs.findIdx fun n => n = longest
      showGroups (gs.take start) ++ "::" ++ showGroups (gs.drop (start + longest))

def Groups.render (g : Groups) : String :=
  showEight g.groups ++ if g.scope = 0 then "" else "%" ++ toString g.scope

def IpAddress.render : IpAddress → String
  | .v4 o => o.render
  | .v6 g => "[" ++ g.render ++ "]"

def SocketAddress.render (a : SocketAddress) : String :=
  a.ip.render ++ ":" ++ toString a.port

end CodeReview.Net
