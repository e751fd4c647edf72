/-!
Numbers written by people and models as free text: an optional sign, digits with an optional point,
an optional exponent. Infinities and the undefined number have names. Nothing else is a number.
-/

namespace CodeReview.Decimal

def isDigit (c : Char) : Bool :=
  '0' ≤ c && c ≤ '9'

/-- The value of digits written one after the other. -/
def valueOf (ds : List Char) : Nat :=
  ds.foldl (fun n c => 10 * n + (c.toNat - 48)) 0

/-- The value of a digit in a base up to sixteen, with letters in either case. -/
def digitIn? (base : Nat) (c : Char) : Option Nat :=
  let value : Option Nat :=
    if isDigit c then some (c.toNat - 48)
    else if 'a' ≤ c && c ≤ 'f' then some (c.toNat - 87)
    else if 'A' ≤ c && c ≤ 'F' then some (c.toNat - 55)
    else none
  value.filter (· < base)

/-- The value of digits in a base. Characters that are no digits do not count. -/
def valueIn (base : Nat) (ds : List Char) : Nat :=
  (ds.filterMap (digitIn? base)).foldl (fun n d => base * n + d) 0

/-- The float nearest to `digits * 10 ^ exponent`. Outside of the reach of floats the power of ten
is not computed. -/
def nearest (digits : Nat) (exponent : Int) : Float :=
  let lead : Int := exponent + (Nat.toDigits 10 digits).length
  if digits = 0 ∨ lead < -400 then 0.0
  else if 400 < lead then 1.0 / 0.0
  else Float.ofScientific digits (exponent < 0) exponent.natAbs

/-- The exponent at the end of a number: nothing, or `e` with an optional sign and digits. -/
def exponentPart? : List Char → Option Int
  | [] => some 0
  | e :: r =>
    if e = 'e' ∨ e = 'E' then
      match r with
      | '-' :: ds => (natural? ds).map fun n => -(n : Int)
      | '+' :: ds => (natural? ds).map Int.ofNat
      | ds => (natural? ds).map Int.ofNat
    else none
where
  /-- One digit or more, and nothing else. -/
  natural? (ds : List Char) : Option Nat :=
    if ds ≠ [] ∧ ds.all isDigit then some (valueOf ds) else none

/-- A number without its sign. -/
def unsigned? (cs : List Char) : Option Float :=
  let whole := cs.takeWhile isDigit
  let rest := cs.dropWhile isDigit
  let fraction := match rest with
    | '.' :: r => r.takeWhile isDigit
    | _ => []
  let rest := match rest with
    | '.' :: r => r.dropWhile isDigit
    | r => r
  if whole = [] ∧ fraction = [] then
    match String.ofList (cs.map Char.toLower) with
    | "inf" => some (1.0 / 0.0)
    | "infinity" => some (1.0 / 0.0)
    | "nan" => some (0.0 / 0.0)
    | _ => none
  else
    (exponentPart? rest).map fun e =>
      nearest (valueOf (whole ++ fraction)) (e - fraction.length)

/-- The float that a text writes, if it writes one. -/
def parseFloat? (s : String) : Option Float :=
  match s.toList with
  | '-' :: r => (unsigned? r).map fun x => -x
  | '+' :: r => unsigned? r
  | r => unsigned? r

/-- The natural number up to a limit that a text writes: an optional `+` and digits. -/
def parseNat? (limit : Nat) (s : String) : Option Nat :=
  let ds := match s.toList with
    | '+' :: r => r
    | r => r
  if ds ≠ [] ∧ ds.all isDigit ∧ valueOf ds ≤ limit then some (valueOf ds) else none

end CodeReview.Decimal
