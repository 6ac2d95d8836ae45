import LuaBytecode.Decimal.Binary64

/-!
# The double nearest to a decimal

A decimal is rounded to the nearest double, and halfway between two to the one with the even
significand. The quotient is compared in exact arithmetic; only decimals that are certain to
overflow or to vanish are sorted out by their size.
-/

namespace LuaBytecode.Binary64

def roundQuotient (num den : Nat) : Nat :=
  let q := num / den
  let twice := 2 * (num % den)
  if twice < den then q else if den < twice then q + 1 else q + q % 2

/-- The power of two for which the quotient, divided by it, has 53 bits, but no less than the one of
the smallest doubles. -/
def scaleOf (num den : Nat) : Int :=
  let estimate : Int := (Nat.log2 num : Int) - Nat.log2 den - 53
  let fits : Bool :=
    num <<< (-estimate).toNat < (den <<< estimate.toNat) <<< 53
  max (if fits then estimate else estimate + 1) (-1074)

/-- The magnitude bits of the double nearest to a positive quotient. A significand that rounds up to
54 bits carries into the exponent. -/
def magnitudeOfQuotient (num den : Nat) : Nat :=
  let scale := scaleOf num den
  let significand := roundQuotient (num <<< (-scale).toNat) (den <<< scale.toNat)
  if significand < hiddenBit then significand
  else (scale + 1075).toNat * hiddenBit + (significand - hiddenBit)

/-- The double nearest to `coefficient * 10 ^ exponent`; what is too large becomes an infinity. -/
def ofDecimal (negative : Bool) (coefficient : Nat) (exponent : Int) : Binary64 :=
  let size : Int := Nat.log2 coefficient
  if coefficient = 0 ∨ size + 4 * exponent < -1200 ∧ size + 3 * exponent < -1200 then
    ofMagnitude negative 0
  else if 1100 < size + 3 * exponent ∧ 1100 < size + 4 * exponent then infinity negative
  else
    let magnitude :=
      magnitudeOfQuotient (coefficient * Nat.pow 10 exponent.toNat) (Nat.pow 10 (-exponent).toNat)
    if magnitude < 2047 * hiddenBit then ofMagnitude negative magnitude else infinity negative

end LuaBytecode.Binary64
