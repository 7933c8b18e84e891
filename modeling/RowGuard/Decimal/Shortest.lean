/-!
# The shortest decimal of a double

A double stands for every real number that rounds to it. Of the decimals in that
interval `shortest` takes one on the coarsest grid of powers of ten, and of the
two grid points beside the double the nearer one. The arithmetic is exact: the
interval is scaled to natural numbers over one denominator.
-/

namespace RowGuard

/-- The number `digits · 10 ^ exponent`. -/
structure Decimal where
  digits : Nat
  exponent : Int
deriving DecidableEq, Repr

namespace Decimal

/-- Which of two equally near grid points is taken. -/
inductive Tie where
  | away
  | even
deriving DecidableEq, Repr

/-- The magnitude `significand · 2 ^ exponent` of a finite double. -/
structure Magnitude where
  significand : Nat
  exponent : Int
  /-- The double is a power of two, so the next one below is half as far away as
  the next one above. -/
  atBoundary : Bool
deriving DecidableEq, Repr

/-- Reads the magnitude off the bits of a finite double. -/
def Magnitude.ofBits (bits : UInt64) : Magnitude :=
  let field : Nat := bits.toNat / 0x10000000000000 % 0x800
  let fraction := bits.toNat % 0x10000000000000
  if field = 0 then ⟨fraction, -1074, false⟩
  else ⟨0x10000000000000 + fraction, (field : Int) - 1075,
    fraction == 0 && 1 < field⟩

/-- The reals that round to one double, `low / denominator` to
`high / denominator` around `mid / denominator`. The ends belong to it when the
double's significand is even. -/
structure Interval where
  low : Nat
  mid : Nat
  high : Nat
  denominator : Nat
  closed : Bool
deriving DecidableEq, Repr

/-- The rounding interval of a double, in quarters of its last place. -/
def Magnitude.interval (m : Magnitude) : Interval :=
  let quarter := m.exponent - 2
  let scale := Nat.pow 2 quarter.toNat
  { low := (4 * m.significand - if m.atBoundary then 1 else 2) * scale
    mid := 4 * m.significand * scale
    high := (4 * m.significand + 2) * scale
    denominator := Nat.pow 2 (-quarter).toNat
    closed := m.significand % 2 == 0 }

/-- Whether `point · 10 ^ exponent` lies in the interval. -/
def Interval.has (i : Interval) (point : Nat) (exponent : Int) : Bool :=
  let value := point * (Nat.pow 10 exponent.toNat * i.denominator)
  let shift := Nat.pow 10 (-exponent).toNat
  (i.low * shift < value && value < i.high * shift) ||
    (i.closed && (value == i.low * shift || value == i.high * shift))

/-- The grid point of `10 ^ exponent` in the interval that is nearest to its
middle, if there is one. -/
def Interval.pointAt? (i : Interval) (tie : Tie)
    (exponent : Int) : Option Nat :=
  let unit := Nat.pow 10 exponent.toNat * i.denominator
  let middle := i.mid * Nat.pow 10 (-exponent).toNat
  let below := middle / unit
  let above := below + 1
  match i.has below exponent, i.has above exponent with
  | false, false => none
  | true, false => some below
  | false, true => some above
  | true, true =>
    let halfway := (below + above) * unit
    if 2 * middle < halfway then some below
    else if halfway < 2 * middle then some above
    else
      match tie with
      | .away => some above
      | .even => some (if below % 2 = 0 then below else above)

/-- The largest power of ten that a double can reach. -/
def largestExponent : Int := 309

/-- Powers of ten from `largestExponent` down to the last place of the smallest
double. -/
def gridCount : Nat := 634

/-- The shortest decimal that rounds to the finite double with these bits, whose
sign is ignored. -/
def shortest (tie : Tie) (bits : UInt64) : Decimal :=
  let interval := (Magnitude.ofBits bits).interval
  let found := (List.range gridCount).findSome? fun (step : Nat) =>
    let exponent := largestExponent - step
    (interval.pointAt? tie exponent).map fun digits => ⟨digits, exponent⟩
  found.getD ⟨0, 0⟩

end Decimal

end RowGuard
