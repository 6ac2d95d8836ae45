import LuaBytecode.Decimal.Binary64
import LuaBytecode.Text.Basic

/-!
# Constants

The constants of a function. A string constant may be absent, which is not the empty string.
-/

namespace LuaBytecode

inductive Constant where
  | nil
  | boolean (b : Bool)
  | number (x : Binary64)
  | string (t : Option Text)
  deriving DecidableEq

namespace Constant

/-- The tags that announce a constant in a chunk, in ascending order. -/
def tags : List Nat := [0, 1, 3, 4]

/-- Equality of values: numbers compare as numbers, so that NaN differs from itself. -/
def same : Constant → Constant → Bool
  | .nil, .nil => true
  | .boolean b, .boolean c => b == c
  | .number x, .number y => x.sameNumber y
  | .string s, .string t => s == t
  | _, _ => false

def isNaN : Constant → Bool
  | .number x => x.isNaN
  | _ => false

end Constant

end LuaBytecode
