import LuaBytecode.Header
import LuaBytecode.Text.Quoted

/-!
# What a decode reports on its way

A decode notes the header once it is accepted, each prototype once it is complete, and the chunk at
the end. The notes of a decode that fails are those of what it had completed.
-/

namespace LuaBytecode

inductive Note where
  | header (width : SizeWidth)
  | prototype (source : Option Text) (start : Int) (depth instructions constants children : Nat)
  | chunk (total : Nat) (consumed : Int)
  deriving DecidableEq

def Note.message : Note → Text
  | .header width =>
    "Accepted Lua 51 header with " ++ Text.ofNat width.bytes ++ "-byte size_t"
  | .prototype source start depth instructions constants children =>
    "Decoded prototype " ++
      (match source with
        | some name => name.quoted
        | none => "None") ++
      " at offset " ++ Text.ofInt start ++ " (depth " ++ Text.ofNat depth ++ "): " ++
      Text.ofNat instructions ++ " instructions, " ++ Text.ofNat constants ++ " constants, " ++
      Text.ofNat children ++ " nested"
  | .chunk total consumed =>
    "Decoded chunk of " ++ Text.ofNat total ++ " bytes (" ++ Text.ofInt consumed ++ " consumed)"

end LuaBytecode
