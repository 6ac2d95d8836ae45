import LuaBytecode.Chunk
import LuaBytecode.Options.Basic
import LuaBytecode.Scan.Field

/-!
# Decoding a chunk

A chunk is its header and the main prototype, and each prototype holds those nested in it. Before a
sequence of records is read, its count is compared with the bytes that are left: each kind of record
has a least size, so that a count that cannot be met is refused before any record is read.
-/

namespace LuaBytecode

/-- When a count of records that do not fit is refused: at the count, or at the record that runs out
of bytes. -/
inductive CountCheck where
  | atCount
  | atRecord
  deriving DecidableEq

structure Decoder where
  width : SizeWidth
  options : Options
  counts : CountCheck := .atCount

namespace Decoder

open Scan

def localSize : Nat := 8

/-- The least number of bytes of a prototype after the size of its source name: two line numbers,
four single bytes and six counts. -/
def prototypeSize : Nat := 4 + 4 + 4 * 1 + 6 * 4

/-- Refuses a count, read at `start`, of records that cannot fit in what is left. -/
def checkCount (d : Decoder) (start : Int) (field : Text) (count recordSize : Nat) :
    Scan Unit := do
  let left ← remaining
  if d.counts = .atCount ∧ left < (count * recordSize : Nat) then
    failAt start (.shortRecords field count (count * recordSize) left)

/-- A count of records of at least `recordSize` bytes each. -/
def readCount (d : Decoder) (field : Text) (recordSize : Nat) : Scan Nat := do
  let start ← position
  let count ← readU32 (some field)
  d.checkCount start field count recordSize
  return count

/-- As many records of at least `recordSize` bytes as their count says. -/
def readRecords {α : Type} (d : Decoder) (field : Text) (recordSize : Nat) (record : Scan α) :
    Scan (List α) := do
  let count ← d.readCount field recordSize
  times count record

def readInstructions (d : Decoder) : Scan (List Instruction) := do
  let count ← d.readCount "instruction count" 4
  let block ← readBytes (count * 4 : Nat) (some "instructions")
  let words ← liftResult (block.words 4)
  return words.map fun word : Nat => Instruction.ofWord d.options.verboseInstructions word

def readConstants (d : Decoder) : Scan (List Constant) :=
  d.readRecords "constant count" 1 (readConstant d.width.bytes d.options.stringErrors.read)

def skipLines (d : Decoder) : Scan Unit := do
  let lines ← d.readCount "line info count" 4
  skip (lines * 4 : Nat) (some "line info")

/-- Passes over a local variable: its name, and the instructions between which it lives. -/
def skipLocal (d : Decoder) : Scan Unit := do
  skipString d.width.bytes "local name"
  skip localSize (some "local pc range")

def skipUpvalueName (d : Decoder) : Scan Unit := skipString d.width.bytes "upvalue name"

def skipDebug (d : Decoder) : Scan Unit := do
  d.skipLines
  let _ ← d.readRecords "local count" (d.width.bytes + localSize) d.skipLocal
  let _ ← d.readRecords "upvalue name count" d.width.bytes d.skipUpvalueName

def readInfo (d : Decoder) : Scan FunctionInfo := do
  let source ← readString d.width.bytes d.options.stringErrors.read "source name"
  let lineDefined ← readU32 (some "line defined")
  let lastLineDefined ← readU32 (some "last line defined")
  let upvalueCount ← readU8 (some "upvalue count")
  let parameterCount ← readU8 (some "parameter count")
  let varargFlag ← readU8 (some "vararg flag")
  let maxStackSize ← readU8 (some "max stack size")
  let instructions ← d.readInstructions
  let constants ← d.readConstants
  return ⟨source, lineDefined, lastLineDefined, upvalueCount, parameterCount, varargFlag,
    maxStackSize, instructions, constants⟩

/-- A prototype at the given depth, which has `levels` levels left for itself and those nested in
it. -/
def readPrototype (d : Decoder) : (levels depth : Nat) → Scan Prototype
  | 0, depth => do failAt (← position) (.nestedTooDeep d.options.maxDepth depth)
  | levels + 1, depth => do
    let start ← position
    let info ← d.readInfo
    let children ← d.readRecords "prototype count" (d.width.bytes + prototypeSize)
      (d.readPrototype levels (depth + 1))
    d.skipDebug
    takeNote (.prototype info.source start depth info.instructions.length info.constants.length
      children.length)
    return .node info children

end Decoder

open Scan in
/-- Refuses bytes after the main function, unless they are allowed. -/
def finishChunk (options : Options) (header : Header) (root : Prototype) : Scan Chunk := do
  let raw ← buffer
  let consumed ← position
  if !options.allowTrailingData && consumed < raw.length then
    failAt consumed (.unreadBytes raw.length)
  else
    takeNote (.chunk raw.length consumed)
    return ⟨header, root, raw⟩

open Scan in
def readChunk (options : Options) (counts : CountCheck := .atCount) : Scan Chunk := do
  let header ← readHeader
  let decoder : Decoder := ⟨header.sizeWidth, options, counts⟩
  let root ← decoder.readPrototype (options.maxDepth + 1) 0
  finishChunk options header root

def decode (options : Options) (buffer : Bytes) : Except Fault Chunk × List Note :=
  let r := readChunk options .atCount buffer 0
  (r.result, r.notes)

/-- A decode under options of which one is overridden, unless what overrides it is null. -/
def decodeWith (options : Options) (verboseInstructions : Json) (buffer : Bytes) :
    Except OptionFault (Except Fault Chunk × List Note) :=
  (options.withOverrides [(Options.Name.verboseInstructions.text, verboseInstructions)]).map
    fun options => decode options buffer

end LuaBytecode
