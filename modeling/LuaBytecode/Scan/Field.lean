import LuaBytecode.Scan.Primitive

/-!
# Strings, constants and the header

A string field is a size, and after it that many bytes, of which the last is a terminator of any
value. Size zero means that there is no string. A constant is a tag and what the tag announces.
-/

namespace LuaBytecode.Scan

/-- The text of a payload that begins at `start`. -/
def textOf (read : TextReader) (start : Int) (field : Text) (payload : Bytes) : Scan Text :=
  match read payload with
  | .ok text => return text
  | .error (.malformed m) => failAt (start + m.start) (.malformedString field m.reason payload)
  | .error (.policy f) => fail (.policy f)

/-- What a size announces: no string, or that many bytes, of which all but the last are the payload,
which begins at `start`. -/
def readContent (read : TextReader) (start : Int) (field : Text) (size : Nat) :
    Scan (Option Text) := do
  if size = 0 then return none
  else
    let content ← readBytes size (some field)
    return some (← textOf read start field content.dropLast)

/-- A string field, its text read by `read`. -/
def readString (width : Int) (read : TextReader) (field : Text) : Scan (Option Text) := do
  let start ← position
  let size ← readSize width (some (field ++ " length"))
  readContent read (start + width) field size

def skipString (width : Int) (field : Text) : Scan Unit := do
  let size ← readSize width (some (field ++ " length"))
  skip size (some field)

/-- What a tag announces; the tag is at `start`. -/
def readValue (width : Int) (read : TextReader) (start : Int) (tag : Nat) : Scan Constant :=
  match tag with
  | 0 => return .nil
  | 1 => return .boolean ((← readU8 (some "boolean constant")) != 0)
  | 3 => return .number (← readDouble (some "number constant"))
  | 4 => return .string (← readString width read "string constant")
  | tag => failAt start (.unknownTag tag)

def readConstant (width : Int) (read : TextReader) : Scan Constant := do
  let start ← position
  let tag ← readU8 (some "constant tag")
  readValue width read start tag

/-- A byte of the header; it is passed even if its value is not accepted. -/
def readHeaderByte (field : Header.Field) : Scan Nat := do
  let start ← position
  let found ← readU8 (some field.name)
  if found ∈ field.accepted then return found
  else failAt start (.badHeaderByte field found)

def readDialect : Scan SizeWidth := do
  let _ ← readHeaderByte .version
  let _ ← readHeaderByte .format
  let _ ← readHeaderByte .endianness
  let _ ← readHeaderByte .intSize
  let width ← readHeaderByte .sizeWidth
  let _ ← readHeaderByte .instructionSize
  let _ ← readHeaderByte .numberSize
  let _ ← readHeaderByte .integralFlag
  return if width = 4 then .four else .eight

/-- The header; the first byte that is not accepted ends the scan. -/
def readHeader : Scan Header := do
  let start ← position
  let found ← peek 4
  if found ≠ Header.signature then failAt start (.badSignature found)
  else
    skip 4 (some "signature")
    let width ← readDialect
    takeNote (.header width)
    return ⟨width⟩

end LuaBytecode.Scan
