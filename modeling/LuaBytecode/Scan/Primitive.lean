import LuaBytecode.Decimal.Binary64
import LuaBytecode.Scan.Basic

/-!
# Bytes, numbers and sizes

The reads that everything else is made of. Each checks first that its bytes are there, and leaves
the offset where it was if they are not.
-/

namespace LuaBytecode

namespace Bytes

/-- How many bytes lie from an offset to the end; none if the offset is past it. -/
def available (data : Bytes) (offset : Int) : Int := max (data.length - offset) 0

/-- Fails unless `size` bytes lie at an offset that is not below zero. -/
def checkSpan (data : Bytes) (offset size : Int) (purpose : Text) (field : Option Text) :
    Except DecodeError Unit :=
  if offset < 0 ∨ data.length < offset + size then
    .error ⟨.shortRead purpose field size (data.available offset), offset⟩
  else .ok ()

/-- The unsigned little-endian number of `size` bytes at an offset. -/
def numberAt (data : Bytes) (offset size : Int) (field : Option Text) : Except DecodeError Nat :=
  (data.checkSpan offset size "integer" field).map fun _ =>
    littleEndian (data.slice offset (offset + size))

def doubleAt (data : Bytes) (offset : Int) (field : Option Text) : Except DecodeError Binary64 :=
  (data.checkSpan offset 8 "number" field).map fun _ => .ofBytes (data.slice offset (offset + 8))

/-- The block as little-endian words of `size` bytes. -/
def words (block : Bytes) (size : Int) : Except Fault (List Nat) :=
  if 0 < size ∧ block.length % size.toNat = 0 then
    .ok ((groups size.toNat (block.length / size.toNat) block).map littleEndian)
  else .error (.unevenBlock block.length size)

end Bytes

namespace Scan

def remaining : Scan Int := fun data offset => ⟨.ok (data.length - offset), offset, []⟩

def atEnd : Scan Bool := fun data offset => ⟨.ok (data.length ≤ offset), offset, []⟩

/-- Fails unless `size` more bytes are there. -/
def require (size : Int) (field : Option Text) : Scan Unit := do
  let left ← remaining
  let offset ← position
  if left < size then failAt offset (.shortRead "read" field size left)

/-- Up to `size` bytes, without moving. -/
def peek (size : Int) : Scan Bytes := fun data offset =>
  ⟨.ok (data.slice offset (offset + size)), offset, []⟩

def skip (size : Int) (field : Option Text) : Scan Unit := do
  require size field
  moveBy size

def readBytes (size : Int) (field : Option Text) : Scan Bytes := do
  require size field
  let found ← peek size
  moveBy size
  return found

/-- The number of `size` bytes, without moving. -/
def peekNumber (size : Int) (field : Option Text) : Scan Nat := do
  liftResult (((← buffer).numberAt (← position) size field).mapError Fault.decode)

def readU8 (field : Option Text) : Scan Nat := do
  let n ← peekNumber 1 field
  moveBy 1
  return n

def readU32 (field : Option Text) : Scan Nat := do
  let n ← peekNumber 4 field
  moveBy 4
  return n

def readDouble (field : Option Text) : Scan Binary64 := do
  let x ← liftResult (((← buffer).doubleAt (← position) field).mapError Fault.decode)
  moveBy 8
  return x

def readSize (width : Int) (field : Option Text) : Scan Nat :=
  match SizeWidth.ofBytes? width with
  | none => fail (.unsupportedWidth width)
  | some w => do
    let start ← position
    let size ← peekNumber w.bytes field
    if maxSize < size then failAt start (.sizeTooLarge field size)
    else do
      moveBy w.bytes
      return size

end Scan

end LuaBytecode
