import LuaBytecode.Header
import LuaBytecode.Prototype

/-!
# Chunks

A chunk is a header, the prototype of the main function, and the bytes that both were read from.
-/

namespace LuaBytecode

structure Chunk where
  header : Header
  root : Prototype
  raw : Bytes
  deriving DecidableEq

def Chunk.same (c d : Chunk) : Bool :=
  c.header == d.header && c.root.same d.root && c.raw == d.raw

end LuaBytecode
