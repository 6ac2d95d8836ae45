import LuaBytecode.Scan.Field

/-!
# Operations of a reader

A reader is asked for one thing after another from the same bytes. Each operation starts where the
one before it left the offset, whether or not that one succeeded.
-/

namespace LuaBytecode.Scan

/-- What an operation gives. -/
inductive Reading where
  | nothing
  | bytes (data : Bytes)
  | number (n : Nat)
  | double (x : Binary64)
  | text (t : Option Text)
  | constant (c : Constant)
  | header (h : Header)
  deriving DecidableEq

/-- What a reader may be asked for. String policies go by their names. -/
inductive Operation where
  | peek (size : Int)
  | require (size : Int) (field : Option Text)
  | readBytes (size : Int) (field : Option Text)
  | skip (size : Int) (field : Option Text)
  | readU8 (field : Option Text)
  | readU32 (field : Option Text)
  | readDouble (field : Option Text)
  | readSize (width : Int) (field : Option Text)
  | readString (width : Int) (errors : Text) (field : Text)
  | skipString (width : Int) (field : Text)
  | readConstant (width : Int) (errors : Text)
  | readHeader
  deriving DecidableEq

namespace Operation

def run : Operation → Scan Reading
  | .peek size => do return .bytes (← Scan.peek size)
  | .require size field => do
    Scan.require size field
    return .nothing
  | .readBytes size field => do return .bytes (← Scan.readBytes size field)
  | .skip size field => do
    Scan.skip size field
    return .nothing
  | .readU8 field => do return .number (← Scan.readU8 field)
  | .readU32 field => do return .number (← Scan.readU32 field)
  | .readDouble field => do return .double (← Scan.readDouble field)
  | .readSize width field => do return .number (← Scan.readSize width field)
  | .readString width errors field => do
    return .text (← Scan.readString width (Policy.readNamed errors) field)
  | .skipString width field => do
    Scan.skipString width field
    return .nothing
  | .readConstant width errors => do
    return .constant (← Scan.readConstant width (Policy.readNamed errors))
  | .readHeader => do return .header (← Scan.readHeader)

/-- What each of the operations gives, and where it leaves the reader. -/
def runAll : List Operation → (data : Bytes) → (offset : Int) → List (Scanned Reading)
  | [], _, _ => []
  | op :: rest, data, offset =>
    let r := op.run data offset
    r :: runAll rest data r.offset

end Operation

end LuaBytecode.Scan
