import LuaBytecode.Decimal.Shortest
import LuaBytecode.Text.Basic

/-!
# The written form of a double

A style says how a decimal is laid out; one style serves all output of the library. A finite double
is written with its fewest digits, always with a point or an exponent, and the sign of a zero is
kept.
-/

namespace LuaBytecode

/-- How decimals are written: from which leading place up to which they are positional, and the
least number of digits of an exponent. -/
structure DecimalStyle where
  positionalFrom : Int
  positionalBelow : Int
  exponentDigits : Nat

namespace DecimalStyle

def digitText (ds : List Nat) : Text := ⟨ds.map CodePoint.ofDigit⟩

def zeros (n : Nat) : Text := ⟨List.replicate n (.ofDigit 0)⟩

/-- Digits with `place` of them before the point. -/
def positional (ds : List Nat) (place : Int) : Text :=
  if place ≤ 0 then "0." ++ zeros (-place).toNat ++ digitText ds
  else if place < ds.length then
    digitText (ds.take place.toNat) ++ "." ++ digitText (ds.drop place.toNat)
  else digitText ds ++ zeros (place.toNat - ds.length) ++ ".0"

def scientific (style : DecimalStyle) (ds : List Nat) (leading : Int) : Text :=
  let exponent := Decimal.digits leading.natAbs
  digitText (ds.take 1) ++ (if ds.length ≤ 1 then Text.empty else "." ++ digitText (ds.drop 1)) ++
    "e" ++ (if leading < 0 then "-" else "+") ++
    zeros (style.exponentDigits - exponent.length) ++ digitText exponent

def write (style : DecimalStyle) (s : Decimal.Scaled) : Text :=
  let ds := Decimal.digits s.coefficient
  let leading := s.exponent + ds.length - 1
  if style.positionalFrom ≤ leading ∧ leading < style.positionalBelow then
    positional ds (leading + 1)
  else style.scientific ds leading

/-- Positional from 0.0001 up to below 10^16, and exponents of two digits or more. -/
def standard : DecimalStyle := ⟨-4, 16, 2⟩

end DecimalStyle

def Binary64.magnitudeText (x : Binary64) : Text :=
  if !x.isFinite then "inf"
  else if x.isZero then "0.0"
  else DecimalStyle.standard.write (Decimal.shortest x)

/-- The text of a double; every NaN has the same. -/
def Binary64.toText (x : Binary64) : Text :=
  if x.isNaN then "nan"
  else if x.isNegative then "-" ++ x.magnitudeText
  else x.magnitudeText

end LuaBytecode
