/-!
# Byte strings

A chunk is a byte string, and every number in it is stored least significant byte first. This module
holds the two directions of that storage, the part of a byte string that two indices cut out, and
the division of a block into words of one size.
-/

namespace LuaBytecode

abbrev Bytes := List UInt8

namespace Bytes

def littleEndian : Bytes → Nat
  | [] => 0
  | b :: rest => b.toNat + 256 * littleEndian rest

/-- The `size` bytes that store `n`, least significant first; what does not fit is dropped. -/
def ofLittleEndian : (size n : Nat) → Bytes
  | 0, _ => []
  | size + 1, n => UInt8.ofNat n :: ofLittleEndian size (n / 256)

/-- The position an index names in a byte string of that length: an index below zero counts from
the end, and a position past either end is moved to that end. -/
def position (length : Nat) (index : Int) : Nat :=
  if index < 0 then (length + index).toNat else min index.toNat length

def slice (data : Bytes) (start stop : Int) : Bytes :=
  let first := position data.length start
  (data.drop first).take (position data.length stop - first)

/-- The first `count` groups of `size` bytes. -/
def groups (size : Nat) : (count : Nat) → Bytes → List Bytes
  | 0, _ => []
  | count + 1, data => data.take size :: groups size count (data.drop size)

theorem length_ofLittleEndian (size n : Nat) : (ofLittleEndian size n).length = size := by
  induction size generalizing n with
  | zero => rfl
  | succ size ih => simp [ofLittleEndian, ih]

end Bytes

end LuaBytecode
