import CodeReview.Decimal.Binary

/-!
The shortest decimal of a float: the fewest digits that read back as the same float, of those the
digits nearest to it, and of two that are equally near the even ones.
-/

namespace CodeReview.Decimal

/-- The decimal number `digits * 10 ^ exponent`. -/
structure Scaled where
  digits : Nat
  exponent : Int
deriving Repr, DecidableEq

/-- The float nearest to a decimal number. -/
def Scaled.toFloat (d : Scaled) : Float :=
  Float.ofScientific d.digits (d.exponent < 0) d.exponent.natAbs

/-- The decimal reads back as the float. -/
def Scaled.readsAs (d : Scaled) (x : Float) : Bool :=
  d.toFloat.toBits == x.toBits

/-- The least `k` with `v < 10 ^ k`, for a positive `v`. The estimate from the binary logarithm is
at most one too low. -/
def Magnitude.scale (v : Magnitude) : Int :=
  let estimate := Int.fdiv (((v.mantissa.log2 : Int) + v.exponent) * 30103) 100000
  go estimate 3
where
  go (k : Int) : Nat → Int
    | 0 => k
    | tries + 1 => let r := v.inUnits k; if r.num < r.den then k else go (k + 1) tries

/-- Of the multiples of `10 ^ unit` on either side of the float, the one that reads back as it. -/
def candidate? (x : Float) (unit : Int) : Option Scaled :=
  let r := (Magnitude.ofFloat x).inUnits unit
  let below : Scaled := ⟨r.num / r.den, unit⟩
  let above : Scaled := ⟨r.num / r.den + 1, unit⟩
  match below.readsAs x, above.readsAs x with
  | true, true => some ⟨r.round .toEven, unit⟩
  | true, false => some below
  | false, true => some above
  | false, false => none

/-- The decimal without the zeros at the end of its digits. -/
def Scaled.strip (d : Scaled) : Scaled :=
  go d.digits d.exponent d.digits
where
  go (n : Nat) (e : Int) : Nat → Scaled
    | 0 => ⟨n, e⟩
    | fuel + 1 => if n % 10 = 0 ∧ n ≠ 0 then go (n / 10) (e + 1) fuel else ⟨n, e⟩

/-- The shortest decimal of a positive finite float. Seventeen digits always read back; were it
not so, the answer would still be a decimal of seventeen digits. -/
def shortest (x : Float) : Scaled :=
  let v := Magnitude.ofFloat x
  let k := v.scale
  let found := (List.range 17).findSome? fun (n : Nat) => candidate? x (k - (n + 1))
  (found.getD ⟨(v.inUnits (k - 17)).round .toEven, k - 17⟩).strip

end CodeReview.Decimal
