/-!
Finite floats as exact numbers. The magnitude of a finite float is `mantissa * 2 ^ exponent`; here
it is read off the bits, and such numbers are scaled and rounded with natural numbers only.
-/

namespace CodeReview.Decimal

/-- The size of a finite float, exactly. -/
structure Magnitude where
  mantissa : Nat
  exponent : Int
deriving Repr, DecidableEq

/-- The magnitude of a float that is neither infinite nor undefined. -/
def Magnitude.ofFloat (x : Float) : Magnitude :=
  let bits : Nat := x.toBits.toNat
  let power : Nat := bits / 0x10000000000000 % 0x800
  let fraction : Nat := bits % 0x10000000000000
  if power = 0 then ⟨fraction, -1074⟩ else ⟨0x10000000000000 + fraction, (power : Int) - 1075⟩

/-- The sign bit is set, as it also is in `-0.0`. -/
def isNegative (x : Float) : Bool :=
  x.toBits.toNat / 0x8000000000000000 = 1

/-- A quotient of natural numbers: a magnitude in units of a power of ten. -/
structure Ratio where
  num : Nat
  den : Nat
deriving Repr, DecidableEq

/-- The magnitude divided by `10 ^ unit`. -/
def Magnitude.inUnits (v : Magnitude) (unit : Int) : Ratio :=
  ⟨v.mantissa * Nat.pow 2 v.exponent.toNat * Nat.pow 10 (-unit).toNat,
   Nat.pow 2 (-v.exponent).toNat * Nat.pow 10 unit.toNat⟩

/-- Which way a number halfway between two others goes. -/
inductive Tie where
  | toEven
  | up
deriving Repr, DecidableEq

/-- The natural number nearest to a quotient. -/
def Ratio.round (tie : Tie) (r : Ratio) : Nat :=
  let q := r.num / r.den
  match compare (2 * (r.num % r.den)) r.den with
  | .lt => q
  | .gt => q + 1
  | .eq =>
    match tie with
    | .up => q + 1
    | .toEven => q + q % 2

/-- The natural number nearest to the magnitude of a finite float. -/
def roundToNat (tie : Tie) (x : Float) : Nat :=
  ((Magnitude.ofFloat x).inUnits 0).round tie

/-- The float nearest to an integer that fits into 64 bits. -/
def floatOfInt (n : Int) : Float :=
  let size : Float := n.natAbs.toUInt64.toFloat
  if n < 0 then -size else size

end CodeReview.Decimal
