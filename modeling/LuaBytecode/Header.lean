import LuaBytecode.Text.Basic

/-!
# The chunk header

A chunk begins with four signature bytes and eight bytes that describe the dialect. All but one of
the eight have a single accepted value; the width of a size field may be four bytes or eight.
-/

namespace LuaBytecode

inductive SizeWidth where
  | four
  | eight
  deriving DecidableEq

namespace SizeWidth

def bytes : SizeWidth → Nat
  | .four => 4
  | .eight => 8

def ofBytes? (n : Int) : Option SizeWidth :=
  if n = 4 then some .four else if n = 8 then some .eight else none

end SizeWidth

structure Header where
  sizeWidth : SizeWidth
  deriving DecidableEq

namespace Header

def signature : List UInt8 := [0x1B, 0x4C, 0x75, 0x61]

inductive Field where
  | version
  | format
  | endianness
  | intSize
  | sizeWidth
  | instructionSize
  | numberSize
  | integralFlag
  deriving DecidableEq

namespace Field

def all : List Field :=
  [.version, .format, .endianness, .intSize, .sizeWidth, .instructionSize, .numberSize,
    .integralFlag]

def name : Field → Text
  | .version => "version"
  | .format => "format"
  | .endianness => "endianness"
  | .intSize => "int_size"
  | .sizeWidth => "size_t_size"
  | .instructionSize => "instruction_size"
  | .numberSize => "number_size"
  | .integralFlag => "integral_flag"

def accepted : Field → List Nat
  | .version => [0x51]
  | .format => [0]
  | .endianness => [1]
  | .intSize => [4]
  | .sizeWidth => [4, 8]
  | .instructionSize => [4]
  | .numberSize => [8]
  | .integralFlag => [0]

def complaint : Field → Text
  | .version => "unsupported Lua version, only 5.1 is supported"
  | .format => "unsupported non-official chunk format"
  | .endianness => "only little-endian chunks are supported"
  | .intSize => "unsupported int size (expected 4)"
  | .sizeWidth => "unsupported size_t size (expected 4 or 8)"
  | .instructionSize => "unsupported instruction size (expected 4)"
  | .numberSize => "unsupported number size (expected 8)"
  | .integralFlag => "only floating-point lua_Number chunks are supported"

end Field

end Header

end LuaBytecode
