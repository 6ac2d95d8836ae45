import LuaBytecode.Text.DecimalDigit

/-!
# Integers written by people

An integer may stand between blanks, have a sign, leading zeros, digits of any script and single
underscores between digits. More than `maxDigits` digits are not read.
-/

namespace LuaBytecode.Text

def maxDigits : Nat := 4300

/-- The values of digits with at most one underscore between each two; the flag says that a digit
has to come next. -/
def digitValues? : (digitNext : Bool) → List CodePoint → Option (List Nat)
  | digitNext, [] => if digitNext then none else some []
  | digitNext, c :: rest =>
    match c.decimalDigit? with
    | some d => (digitValues? false rest).map (d :: ·)
    | none => if c = .ofChar '_' ∧ !digitNext then digitValues? true rest else none

def naturalValue? (codes : List CodePoint) : Option Nat :=
  match digitValues? true codes with
  | some ds => if ds.length ≤ maxDigits then some (Decimal.value ds) else none
  | none => none

def trimBlanks (codes : List CodePoint) : List CodePoint :=
  ((codes.dropWhile CodePoint.isBlank).reverse.dropWhile CodePoint.isBlank).reverse

def toInt? (t : Text) : Option Int :=
  match trimBlanks t.codes with
  | [] => none
  | sign :: rest =>
    if sign = .ofChar '-' then (naturalValue? rest).map fun n => -(n : Int)
    else if sign = .ofChar '+' then (naturalValue? rest).map Int.ofNat
    else (naturalValue? (sign :: rest)).map Int.ofNat

end LuaBytecode.Text
