import LuaBytecode.Decimal.Binary64
import LuaBytecode.Text.Basic

/-!
# JSON values

Integers are exact and of any size, other numbers are doubles, and the members of an object keep the
order in which their names first came.
-/

namespace LuaBytecode

inductive Json where
  | null
  | bool (b : Bool)
  | int (n : Int)
  | float (x : Binary64)
  | string (t : Text)
  | array (items : List Json)
  | object (members : List (Text × Json))
  deriving Inhabited

namespace Json

def isNull : Json → Bool
  | .null => true
  | _ => false

/-- Sets a member: a name that is there keeps its place. -/
def setMember (name : Text) (value : Json) : List (Text × Json) → List (Text × Json)
  | [] => [(name, value)]
  | member :: rest =>
    if member.1 = name then (name, value) :: rest else member :: setMember name value rest

def member? (name : Text) (members : List (Text × Json)) : Option Json :=
  (members.find? (·.1 = name)).map (·.2)

end Json

end LuaBytecode
