import LuaBytecode.Text.Policy

/-!
# Compilers of source text

A compiler is no part of this library: it is started, and then turns a text and a name for the chunk
into the bytes of a chunk. It may fail to start, refuse a text, or break down over it.
-/

namespace LuaBytecode

/-- What a compiler says about a text that it refuses, in bytes or as a text. -/
inductive Complaint where
  | bytes (data : Bytes)
  | text (t : Text)
  deriving DecidableEq

/-- Malformed pieces of the bytes are replaced. -/
def Complaint.message : Complaint → Text
  | .bytes data => ⟨(Utf8.pieces data).map Utf8.Piece.replaced⟩
  | .text t => t

inductive CompilerFault where
  | refusal (c : Complaint)
  | breakdown (message : Text)
  deriving DecidableEq

/-- Starting a compiler may fail, with a message. -/
structure Compiler where
  start : Except Text Unit
  compile : (source name : Bytes) → Except CompilerFault Bytes

end LuaBytecode
