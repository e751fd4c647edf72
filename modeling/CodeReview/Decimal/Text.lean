import CodeReview.Decimal.Shortest

/-!
Floats as text. `display` writes the shortest digits that read back; `display` keeps at least one
digit after the point and turns to powers of ten outside of `1e-5 ≤ x < 1e16`. `fixed` writes a
given number of places after the point.
-/

namespace CodeReview.Decimal

/-- The digits of a natural number in base ten. -/
def digitsOf (n : Nat) : List Char :=
  Nat.toDigits 10 n

def zeros (n : Nat) : List Char :=
  List.replicate n '0'

/-- The power of ten of the first digit is written out as places from here on. -/
def leastPlain : Int := -5

/-- From this power of ten of the first digit on, numbers are written with an exponent. -/
def plainBelow : Int := 16

/-- The digits of a positive decimal laid out with a point, or with an exponent of either sign when
the first digit stands too far from the point. -/
def Scaled.layout (d : Scaled) : List Char :=
  let ds := digitsOf d.digits
  let lead := d.exponent + ds.length - 1
  if leastPlain ≤ lead ∧ lead < plainBelow then
    if 0 ≤ d.exponent then ds ++ zeros d.exponent.toNat ++ ['.', '0']
    else if 0 ≤ lead then ds.take (lead.toNat + 1) ++ '.' :: ds.drop (lead.toNat + 1)
    else '0' :: '.' :: zeros ((-lead).toNat - 1) ++ ds
  else
    let point := if ds.length = 1 then ds else ds.take 1 ++ '.' :: ds.drop 1
    point ++ 'e' :: (if lead < 0 then '-' else '+') :: digitsOf lead.natAbs

/-- A finite float as text that reads back as it. -/
def display (x : Float) : String :=
  let size := if x == 0 then "0.0" else String.ofList (shortest x.abs).layout
  if isNegative x then "-" ++ size else size

/-- A finite float with that many places after the point. The exact value of the float is rounded,
and a half goes to the even neighbour. -/
def fixed (places : Nat) (x : Float) : String :=
  let n := ((Magnitude.ofFloat x).inUnits (-places)).round .toEven
  let ds := digitsOf n
  let padded := zeros (places + 1 - ds.length) ++ ds
  let cut := padded.length - places
  let size := String.ofList (padded.take cut ++ if places = 0 then [] else '.' :: padded.drop cut)
  if isNegative x then "-" ++ size else size

end CodeReview.Decimal
