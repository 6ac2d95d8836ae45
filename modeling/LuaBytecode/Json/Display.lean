import LuaBytecode.Decimal.Style
import LuaBytecode.Json.Basic
import LuaBytecode.Text.Quoted

/-!
# Showing a value in a message

A message shows a value on one line: texts are quoted, the three words are capitalised, and items
and members are separated by a comma and a blank.
-/

namespace LuaBytecode.Json

mutual

def display : Json → Text
  | .null => "None"
  | .bool b => if b then "True" else "False"
  | .int n => Text.ofInt n
  | .float x => x.toText
  | .string t => t.quoted
  | .array items => "[" ++ Text.joinWith ", " (displayItems items) ++ "]"
  | .object members => "\x7b" ++ Text.joinWith ", " (displayMembers members) ++ "\x7d"

def displayItems : List Json → List Text
  | [] => []
  | item :: rest => display item :: displayItems rest

def displayMembers : List (Text × Json) → List Text
  | [] => []
  | (name, value) :: rest => (name.quoted ++ ": " ++ display value) :: displayMembers rest

end

end LuaBytecode.Json
