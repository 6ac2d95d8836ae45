import LuaBytecode.Chunk
import LuaBytecode.Decimal.Style
import LuaBytecode.Json.Basic

/-!
# Chunks as JSON

The tree of a chunk as a JSON value. JSON has no literal for a number that is not finite, so that
such a constant becomes the text of its number.
-/

namespace LuaBytecode

def Json.ofText? : Option Text → Json
  | some t => .string t
  | none => .null

def Opcode.toJson (o : Opcode) : Json :=
  .object [("opcode", .int o.number), ("name", .string o.name), ("format", .string o.format.name)]

def Instruction.toMembers (i : Instruction) : List (Text × Json) :=
  ("raw", .int i.word) ::
    match i.operation with
    | none => []
    | some operation =>
      [("opcode", .int operation.number),
        ("name", Json.ofText? (operation.opcode.map (·.name))),
        ("format", Json.ofText? (operation.opcode.map (·.format.name)))]

def Constant.typeName : Constant → Text
  | .nil => "nil"
  | .boolean _ => "boolean"
  | .number _ => "number"
  | .string _ => "string"

def Constant.valueJson : Constant → Json
  | .nil => .null
  | .boolean b => .bool b
  | .number x => if x.isFinite then .float x else .string x.toText
  | .string t => Json.ofText? t

def Constant.toJson (c : Constant) : Json :=
  .object [("type", .string c.typeName), ("value", c.valueJson)]

def Header.toJson (h : Header) : Json :=
  .object [("version", .int 0x51), ("format", .int 0), ("little_endian", .bool true),
    ("int_size", .int 4), ("size_t_width", .int h.sizeWidth.bytes), ("instruction_size", .int 4),
    ("number_size", .int 8), ("integral_numbers", .bool false)]

def FunctionInfo.toMembers (f : FunctionInfo) (children : List Json) : List (Text × Json) :=
  [("source", Json.ofText? f.source), ("line_defined", .int f.lineDefined),
    ("last_line_defined", .int f.lastLineDefined), ("num_upvalues", .int f.upvalueCount),
    ("num_params", .int f.parameterCount), ("is_vararg", .int f.varargFlag),
    ("max_stack_size", .int f.maxStackSize),
    ("instructions", .array (f.instructions.map fun i => .object i.toMembers)),
    ("constants", .array (f.constants.map Constant.toJson)), ("prototypes", .array children)]

namespace Prototype

mutual

def toJson : Prototype → Json
  | .node info children => .object (info.toMembers (toJsonAll children))

def toJsonAll : List Prototype → List Json
  | [] => []
  | p :: rest => toJson p :: toJsonAll rest

end

end Prototype

def Bytes.hex (data : Bytes) : Text := Text.concat (data.map fun b => Text.ofHex 2 b.toNat)

def Chunk.toJson (includeRaw : Bool) (c : Chunk) : Json :=
  let raw : List (Text × Json) := if includeRaw then [("raw", .string c.raw.hex)] else []
  .object (("header", c.header.toJson) :: ("root", c.root.toJson) :: raw)

end LuaBytecode
