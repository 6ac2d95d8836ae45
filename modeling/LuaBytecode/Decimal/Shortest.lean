import LuaBytecode.Decimal.Digits
import LuaBytecode.Decimal.Binary64

/-!
# The fewest digits that read back

Every decimal between two neighbouring rounding boundaries is read as the double between them. The
shortest decimal of a double is the one with the fewest digits in that interval, and of those the
one nearest to the double. For each number of digits only the two grid points next to the double
are tried: if any grid point lies in the interval, one of the two does.
-/

namespace LuaBytecode.Decimal

/-- A decimal number `coefficient * 10 ^ exponent`. -/
structure Scaled where
  coefficient : Nat
  exponent : Int
  deriving DecidableEq

def Scaled.trim (s : Scaled) : Scaled :=
  if s.coefficient ≠ 0 ∧ s.coefficient % 10 = 0 then
    Scaled.trim ⟨s.coefficient / 10, s.exponent + 1⟩
  else s
termination_by s.coefficient

/-- The decimals that are read as one double: a quarter of the last binary place is the unit of
`low`, `middle` and `high`, and it is `2 ^ scale`. -/
structure Interval where
  low : Nat
  middle : Nat
  high : Nat
  scale : Int
  closed : Bool

/-- The interval of a positive finite double. Below a power of two the neighbour is half as far, and
the ends belong to the interval if the significand is even. -/
def Interval.of (x : Binary64) : Interval :=
  let m := x.significand
  { low := 4 * m - (if x.fraction = 0 ∧ 1 < x.exponentField then 1 else 2)
    middle := 4 * m
    high := 4 * m + 2
    scale := x.exponent - 2
    closed := m % 2 = 0 }

namespace Interval

/-- A count of units as a fraction of the grid step `10 ^ place`. -/
def numerator (i : Interval) (place : Int) (units : Nat) : Nat :=
  (units <<< i.scale.toNat) * Nat.pow 10 (-place).toNat

def denominator (i : Interval) (place : Int) : Nat :=
  Nat.pow 10 place.toNat <<< (-i.scale).toNat

def contains (i : Interval) (place : Int) (point : Nat) : Bool :=
  let low := i.numerator place i.low
  let high := i.numerator place i.high
  let here := point * i.denominator place
  if i.closed then low ≤ here && here ≤ high else low < here && here < high

/-- The grid point next to the middle that lies in the interval, the nearer one if both do, and the
even one if they are equally near. -/
def pointOf (i : Interval) (place : Int) : Option Scaled :=
  let num := i.numerator place i.middle
  let den := i.denominator place
  let below := num / den
  let twice := 2 * (num % den)
  let nearer := if twice < den then below else if den < twice then below + 1 else below + below % 2
  let farther := if nearer = below then below + 1 else below
  if i.contains place nearer then some ⟨nearer, place⟩
  else if i.contains place farther then some ⟨farther, place⟩
  else none

def leadingPlace (i : Interval) : Int :=
  let binary : Int := (Nat.log2 i.middle : Int) + i.scale
  let estimate := Int.fdiv (binary * 30103) 100000
  if i.denominator (estimate + 1) ≤ i.numerator (estimate + 1) i.middle then estimate + 1
  else estimate

def exact (i : Interval) : Scaled :=
  if 0 ≤ i.scale then ⟨i.middle <<< i.scale.toNat, 0⟩
  else ⟨i.middle * Nat.pow 5 (-i.scale).toNat, i.scale⟩

end Interval

def shortest (x : Binary64) : Scaled :=
  let i := Interval.of x
  let leading := i.leadingPlace
  (((List.range 17).findSome? fun further : Nat => i.pointOf (leading - further)).getD i.exact).trim

end LuaBytecode.Decimal
