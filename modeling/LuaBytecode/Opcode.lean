import LuaBytecode.Text.Basic

/-!
# The opcodes of Lua 5.1

Lua 5.1 defines 38 opcodes. The opcode field of an instruction has six bits, so that it can also
hold numbers that name none.
-/

namespace LuaBytecode

inductive OperandFormat where
  | abc
  | aBx
  | aSbx
  deriving DecidableEq

def OperandFormat.name : OperandFormat → Text
  | .abc => "iABC"
  | .aBx => "iABx"
  | .aSbx => "iAsBx"

structure Opcode where
  number : Nat
  name : Text
  format : OperandFormat
  deriving DecidableEq

namespace Opcode

def table : List (String × OperandFormat) :=
  [("MOVE", .abc), ("LOADK", .aBx), ("LOADBOOL", .abc), ("LOADNIL", .abc), ("GETUPVAL", .abc),
    ("GETGLOBAL", .aBx), ("GETTABLE", .abc), ("SETGLOBAL", .aBx), ("SETUPVAL", .abc),
    ("SETTABLE", .abc), ("NEWTABLE", .abc), ("SELF", .abc), ("ADD", .abc), ("SUB", .abc),
    ("MUL", .abc), ("DIV", .abc), ("MOD", .abc), ("POW", .abc), ("UNM", .abc), ("NOT", .abc),
    ("LEN", .abc), ("CONCAT", .abc), ("JMP", .aSbx), ("EQ", .abc), ("LT", .abc), ("LE", .abc),
    ("TEST", .abc), ("TESTSET", .abc), ("CALL", .abc), ("TAILCALL", .abc), ("RETURN", .abc),
    ("FORLOOP", .aSbx), ("FORPREP", .aSbx), ("TFORLOOP", .abc), ("SETLIST", .abc), ("CLOSE", .abc),
    ("CLOSURE", .aBx), ("VARARG", .abc)]

def count : Nat := table.length

def names : List Text := table.map fun entry => entry.1

def lookup? (number : Int) : Option Opcode :=
  if number < 0 then none
  else table[number.toNat]?.map fun (name, format) => ⟨number.toNat, name, format⟩

end Opcode

end LuaBytecode
