import LuaBytecode.Opcode

/-!
# Instructions

An instruction is one word, of 32 bits in a chunk: the opcode in the lowest six bits, above it the
operand A of eight bits, and above that either C and B of nine bits each or one operand Bx of
eighteen. The fields of a negative word are those of its two's complement.
-/

namespace LuaBytecode

structure Operation where
  number : Nat
  opcode : Option Opcode
  deriving DecidableEq

structure Instruction where
  word : Int
  operation : Option Operation
  deriving DecidableEq

namespace Instruction

/-- The `size` bits of the word from `low` on. -/
def field (i : Instruction) (low size : Nat) : Nat := ((i.word >>> low) % (1 <<< size : Nat)).toNat

def a (i : Instruction) : Nat := i.field 6 8

def b (i : Instruction) : Nat := i.field 23 9

def c (i : Instruction) : Nat := i.field 14 9

def bx (i : Instruction) : Nat := i.field 14 18

/-- What is taken from Bx to make it signed. -/
def bias : Nat := 0x3FFFF / 2

def sbx (i : Instruction) : Int := (i.bx : Int) - bias

def ofWord (annotate : Bool) (word : Int) : Instruction :=
  let number := (word % 64).toNat
  ⟨word, if annotate then some ⟨number, Opcode.lookup? number⟩ else none⟩

end Instruction

end LuaBytecode
