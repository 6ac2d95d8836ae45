import LuaBytecode.Bytes
import Mathlib.Algebra.Group.Nat.Defs

/-!
# Numbers as bytes

The two directions of the storage of numbers are inverse to each other: on the numbers that so many
bytes can hold, and on the byte strings of one length.
-/

namespace LuaBytecode.Bytes

theorem littleEndian_ofLittleEndian (size n : Nat) :
    littleEndian (ofLittleEndian size n) = n % 256 ^ size := by
  induction size generalizing n with
  | zero => simp [ofLittleEndian, littleEndian, Nat.mod_one]
  | succ size ih =>
    have hpow : 256 ^ (size + 1) = 256 * 256 ^ size := by rw [Nat.pow_succ, Nat.mul_comm]
    simp only [ofLittleEndian, littleEndian, ih, UInt8.toNat_ofNat']
    rw [hpow, Nat.mod_mul]

theorem littleEndian_of_lt {size n : Nat} (h : n < 256 ^ size) :
    littleEndian (ofLittleEndian size n) = n := by
  rw [littleEndian_ofLittleEndian, Nat.mod_eq_of_lt h]

theorem ofLittleEndian_injective {size m n : Nat} (hm : m < 256 ^ size) (hn : n < 256 ^ size)
    (h : ofLittleEndian size m = ofLittleEndian size n) : m = n := by
  have hnumber := congrArg littleEndian h
  rwa [littleEndian_of_lt hm, littleEndian_of_lt hn] at hnumber

theorem littleEndian_lt (data : Bytes) : littleEndian data < 256 ^ data.length := by
  induction data with
  | nil => simp [littleEndian]
  | cons b rest ih =>
    have hb := b.toNat_lt
    simp only [littleEndian, List.length_cons, Nat.pow_succ]
    omega

theorem ofLittleEndian_littleEndian (data : Bytes) :
    ofLittleEndian data.length (littleEndian data) = data := by
  induction data with
  | nil => rfl
  | cons b rest ih =>
    have hb := b.toNat_lt
    have hquotient : (b.toNat + 256 * littleEndian rest) / 256 = littleEndian rest := by omega
    have hbyte : UInt8.ofNat (b.toNat + 256 * littleEndian rest) = b := by
      apply UInt8.toNat_inj.mp
      rw [UInt8.toNat_ofNat']
      omega
    simp only [littleEndian, List.length_cons, ofLittleEndian, hquotient, hbyte, ih]

theorem littleEndian_lt_of_length {data : Bytes} {size : Nat} (h : data.length = size) :
    littleEndian data < 256 ^ size := by
  rw [← h]
  exact littleEndian_lt data

theorem ofLittleEndian_of_length {data : Bytes} {size : Nat} (h : data.length = size) :
    ofLittleEndian size (littleEndian data) = data := by
  rw [← h]
  exact ofLittleEndian_littleEndian data

end LuaBytecode.Bytes
