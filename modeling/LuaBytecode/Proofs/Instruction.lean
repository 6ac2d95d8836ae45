import LuaBytecode.Instruction
import Mathlib.Tactic.LinearCombination
import Mathlib.Tactic.Linarith
import Mathlib.Tactic.Positivity

/-!
# The fields of an instruction

The fields of an instruction lie side by side in the lowest 32 bits of its word, so that these bits
are the sum of the fields, each moved to its place. There are two layouts, and they agree because
two fields side by side are one field. The sum determines its parts: what is assembled from fields
has these fields again, and two words have the same fields if and only if their lowest 32 bits agree.
-/

namespace LuaBytecode.Instruction

/-! ### Fields side by side -/

/-- The integer form of `Nat.mod_mul`. -/
theorem emod_mul {m n : Nat} (hm : 0 < m) (hn : 0 < n) (x : Int) :
    x % (m * n : Nat) = x % m + x / m % n * m := by
  have hlower := Int.emod_nonneg x (show (m : Int) ≠ 0 by omega)
  have hlower_lt := Int.emod_lt_of_pos x (show (0 : Int) < m by omega)
  have hupper := Int.emod_nonneg (x / m) (show (n : Int) ≠ 0 by omega)
  have hupper_lt := Int.emod_lt_of_pos (x / m) (show (0 : Int) < n by omega)
  -- What is left of `x` without its multiple of `m * n` is a remainder if it is below `m * n`.
  have hx : x = x % m + x / m % n * m + (m * n : Nat) * (x / m / n) := by
    push_cast
    linear_combination -Int.emod_add_mul_ediv x m - m * Int.emod_add_mul_ediv (x / m) n
  have hnonneg : 0 ≤ x % m + x / m % n * m := by positivity
  have hlt : x % m + x / m % n * m < (m * n : Nat) := by
    push_cast
    nlinarith
  calc x % (m * n : Nat)
      = (x % m + x / m % n * m + (m * n : Nat) * (x / m / n)) % (m * n : Nat) := by rw [← hx]
    _ = x % m + x / m % n * m := by
        rw [Int.add_mul_emod_self_left, Int.emod_eq_of_lt hnonneg hlt]

theorem cast_field (i : Instruction) (low size : Nat) :
    (i.field low size : Int) = i.word / (2 ^ low : Nat) % (2 ^ size : Nat) := by
  have hsize : ((2 ^ size : Nat) : Int) ≠ 0 := by positivity
  rw [field, Int.shiftRight_eq_div_pow, Nat.one_shiftLeft,
    Int.toNat_of_nonneg (Int.emod_nonneg _ hsize)]

theorem field_lt (i : Instruction) (low size : Nat) : i.field low size < 2 ^ size := by
  have hsize : (0 : Int) < (2 ^ size : Nat) := by positivity
  have hlt := Int.emod_lt_of_pos (i.word / (2 ^ low : Nat)) hsize
  rw [← cast_field] at hlt
  exact Int.ofNat_lt.mp hlt

/-- Two fields that lie side by side are one field. -/
theorem field_add (i : Instruction) (low m n : Nat) :
    i.field low (m + n) = i.field low m + i.field (low + m) n * 2 ^ m := by
  have hdiv : i.word / (2 ^ low : Nat) / (2 ^ m : Nat) = i.word / (2 ^ (low + m) : Nat) := by
    rw [Int.ediv_ediv_of_nonneg (Int.natCast_nonneg _), Nat.pow_add, Int.natCast_mul]
  apply Int.ofNat_inj.mp
  calc (i.field low (m + n) : Int)
      = i.word / (2 ^ low : Nat) % (2 ^ m * 2 ^ n : Nat) := by rw [cast_field, Nat.pow_add]
    _ = i.field low m + i.field (low + m) n * (2 ^ m : Nat) := by
        rw [emod_mul (Nat.two_pow_pos m) (Nat.two_pow_pos n), hdiv, cast_field, cast_field]
    _ = (i.field low m + i.field (low + m) n * 2 ^ m : Nat) := by push_cast; rfl

/-! ### The two layouts -/

/-- The numbers that an instruction is made of: that of its opcode, and its operands. -/
structure Fields where
  number : Nat
  a : Nat
  b : Nat
  c : Nat
  bx : Nat
  sbx : Int
  deriving DecidableEq

def fields (i : Instruction) : Fields := ⟨(i.word % 64).toNat, i.a, i.b, i.c, i.bx, i.sbx⟩

/-- The fields are numbers of their sizes, and in either layout their sum is what the lowest 32 bits
of the word hold. -/
structure Fields.Divide (f : Fields) (word : Int) : Prop where
  number_eq : (f.number : Int) = word % 2 ^ 6
  a_lt : f.a < 2 ^ 8
  b_lt : f.b < 2 ^ 9
  c_lt : f.c < 2 ^ 9
  bx_lt : f.bx < 2 ^ 18
  sum_abc : (f.number : Int) + f.a * 2 ^ 6 + f.c * 2 ^ 14 + f.b * 2 ^ 23 = word % 2 ^ 32
  sum_abx : (f.number : Int) + f.a * 2 ^ 6 + f.bx * 2 ^ 14 = word % 2 ^ 32
  bx_eq : f.bx = f.b * 2 ^ 9 + f.c
  sbx_bounds : -131071 ≤ f.sbx ∧ f.sbx ≤ 131072
  bx_eq_sbx : (f.bx : Int) = f.sbx + 131071

theorem cast_field_zero (i : Instruction) (size : Nat) :
    (i.field 0 size : Int) = i.word % (2 ^ size : Nat) := by
  rw [cast_field, Nat.pow_zero, Nat.cast_one, Int.ediv_one]

theorem number_fields (i : Instruction) : i.fields.number = i.field 0 6 := by
  apply Int.ofNat_inj.mp
  rw [cast_field_zero]
  exact Int.toNat_of_nonneg (Int.emod_nonneg _ (by decide))

theorem bx_eq_add (i : Instruction) : i.bx = i.c + i.b * 2 ^ 9 := i.field_add 14 9 9

theorem field_zero_eq_add (i : Instruction) :
    i.field 0 32 = i.fields.number + i.a * 2 ^ 6 + i.bx * 2 ^ 14 := by
  calc i.field 0 32
      = i.field 0 6 + i.field 6 26 * 2 ^ 6 := i.field_add 0 6 26
    _ = i.field 0 6 + (i.a + i.bx * 2 ^ 8) * 2 ^ 6 := by rw [i.field_add 6 8 18]; rfl
    _ = i.fields.number + i.a * 2 ^ 6 + i.bx * 2 ^ 14 := by rw [number_fields]; omega

theorem divide_fields (i : Instruction) : i.fields.Divide i.word where
  number_eq := by
    rw [number_fields, cast_field_zero]
    rfl
  a_lt := i.field_lt 6 8
  b_lt := i.field_lt 23 9
  c_lt := i.field_lt 14 9
  bx_lt := i.field_lt 14 18
  sum_abc := by
    have hsum := i.cast_field_zero 32
    rw [field_zero_eq_add, bx_eq_add] at hsum
    change (i.fields.number : Int) + i.a * 2 ^ 6 + i.c * 2 ^ 14 + i.b * 2 ^ 23 = i.word % 2 ^ 32
    omega
  sum_abx := by
    have hsum := i.cast_field_zero 32
    rw [field_zero_eq_add] at hsum
    exact_mod_cast hsum
  bx_eq := i.bx_eq_add.trans (Nat.add_comm _ _)
  sbx_bounds := by
    have hlt : i.bx < 2 ^ 18 := i.field_lt 14 18
    change -131071 ≤ (i.bx : Int) - 131071 ∧ (i.bx : Int) - 131071 ≤ 131072
    omega
  bx_eq_sbx := (Int.sub_add_cancel _ _).symm

/-- Numbers of these sizes are determined by their sum. -/
theorem Fields.Divide.unique {f g : Fields} {v w : Int} (hf : f.Divide v) (hg : g.Divide w)
    (h : v % 2 ^ 32 = w % 2 ^ 32) : f = g := by
  obtain ⟨hnumber, ha, -, hc, -, -, hsum, hbx, -, hsbx⟩ := hf
  obtain ⟨hnumber', ha', -, hc', -, -, hsum', hbx', -, hsbx'⟩ := hg
  -- From the lowest field up: each sum ends in the next field, and above it is a sum again.
  have number_eq : f.number = g.number := by omega
  have upper_eq : f.a + f.bx * 2 ^ 8 = g.a + g.bx * 2 ^ 8 := by omega
  have a_eq : f.a = g.a := by omega
  have bx_eq : f.bx = g.bx := by omega
  have c_eq : f.c = g.c := by omega
  have b_eq : f.b = g.b := by omega
  have sbx_eq : f.sbx = g.sbx := by omega
  obtain ⟨⟩ := f
  obtain ⟨⟩ := g
  exact (Fields.mk.injEq ..).mpr ⟨number_eq, a_eq, b_eq, c_eq, bx_eq, sbx_eq⟩

/-- Two words have the same fields if and only if their lowest 32 bits agree. -/
theorem fields_inj (i j : Instruction) :
    i.fields = j.fields ↔ i.word % 2 ^ 32 = j.word % 2 ^ 32 := by
  constructor
  · intro h
    calc i.word % 2 ^ 32
        = i.fields.number + i.fields.a * 2 ^ 6 + i.fields.bx * 2 ^ 14 := i.divide_fields.sum_abx.symm
      _ = j.fields.number + j.fields.a * 2 ^ 6 + j.fields.bx * 2 ^ 14 := by rw [h]
      _ = j.word % 2 ^ 32 := j.divide_fields.sum_abx
  · intro h
    exact i.divide_fields.unique j.divide_fields h

/-! ### Words assembled from fields -/

/-- The word with these fields, for an opcode of three operands. -/
def assemble (number a b c : Nat) : Nat := number ||| a <<< 6 ||| c <<< 14 ||| b <<< 23

/-- The word with these fields, for an opcode of two operands. -/
def assembleBx (number a bx : Nat) : Nat := number ||| a <<< 6 ||| bx <<< 14

theorem or_shiftLeft {low place : Nat} (h : low < 2 ^ place) (high : Nat) :
    low ||| high <<< place = low + high * 2 ^ place := by
  rw [Nat.or_comm, ← Nat.shiftLeft_add_eq_or_of_lt h, Nat.shiftLeft_eq, Nat.add_comm]

section

variable {number a b c bx : Nat}

theorem assembleBx_eq (hnumber : number < 2 ^ 6) (ha : a < 2 ^ 8) :
    assembleBx number a bx = number + a * 2 ^ 6 + bx * 2 ^ 14 := by
  rw [assembleBx, or_shiftLeft hnumber, or_shiftLeft (by omega)]

theorem assemble_eq (hnumber : number < 2 ^ 6) (ha : a < 2 ^ 8) (hc : c < 2 ^ 9) :
    assemble number a b c = number + a * 2 ^ 6 + c * 2 ^ 14 + b * 2 ^ 23 := by
  calc assemble number a b c
      = assembleBx number a c ||| b <<< 23 := rfl
    _ = number + a * 2 ^ 6 + c * 2 ^ 14 + b * 2 ^ 23 := by
        rw [assembleBx_eq hnumber ha, or_shiftLeft (by omega)]

theorem divide_assembleBx (hnumber : number < 2 ^ 6) (ha : a < 2 ^ 8) (hbx : bx < 2 ^ 18) :
    Fields.Divide ⟨number, a, bx / 2 ^ 9, bx % 2 ^ 9, bx, bx - 131071⟩
      (assembleBx number a bx) := by
  rw [assembleBx_eq hnumber ha]
  constructor <;> push_cast <;> omega

theorem divide_assemble (hnumber : number < 2 ^ 6) (ha : a < 2 ^ 8) (hb : b < 2 ^ 9)
    (hc : c < 2 ^ 9) :
    Fields.Divide ⟨number, a, b, c, b * 2 ^ 9 + c, (b * 2 ^ 9 + c : Nat) - 131071⟩
      (assemble number a b c) := by
  rw [assemble_eq hnumber ha hc]
  constructor <;> push_cast <;> omega

end

/-- The fields of a word are numbers of their sizes, and in either layout they sum up to the lowest
32 bits of the word, which is kept whole. Conversely a word that is assembled from numbers of these
sizes has them as its fields. So two words have the same fields if and only if their lowest 32 bits
agree. -/
theorem fields_divide_word :
    (∀ (annotate : Bool) (word : Int),
      (ofWord annotate word).word = word ∧ (ofWord annotate word).fields.Divide word ∧
        (ofWord true word).operation.map Operation.number =
          some (ofWord annotate word).fields.number) ∧
    (∀ (annotate : Bool) (number : Fin (2 ^ 6)) (a : Fin (2 ^ 8)) (b c : Fin (2 ^ 9)),
      let i := ofWord annotate (assemble number a b c)
      i.fields.number = number ∧ i.a = a ∧ i.b = b ∧ i.c = c) ∧
    (∀ (annotate : Bool) (number : Fin (2 ^ 6)) (a : Fin (2 ^ 8)) (bx : Fin (2 ^ 18)),
      let i := ofWord annotate (assembleBx number a bx)
      i.fields.number = number ∧ i.a = a ∧ i.bx = bx) ∧
    ∀ (annotate : Bool) (v w : Int),
      (ofWord annotate v).fields = (ofWord annotate w).fields ↔ v % 2 ^ 32 = w % 2 ^ 32 := by
  refine ⟨fun annotate word => ⟨rfl, divide_fields _, rfl⟩, ?_, ?_, fun annotate v w => ?_⟩
  · intro annotate number a b c i
    have hfields := i.divide_fields.unique (divide_assemble number.2 a.2 b.2 c.2) rfl
    exact ⟨congrArg Fields.number hfields, congrArg Fields.a hfields, congrArg Fields.b hfields,
      congrArg Fields.c hfields⟩
  · intro annotate number a bx i
    have hfields := i.divide_fields.unique (divide_assembleBx number.2 a.2 bx.2) rfl
    exact ⟨congrArg Fields.number hfields, congrArg Fields.a hfields, congrArg Fields.bx hfields⟩
  · exact fields_inj _ _

/-- The fields of a negative word are those of its two's complement. -/
example : (ofWord false (-1)).fields = ⟨63, 255, 511, 511, 262143, 131072⟩ := by decide

end LuaBytecode.Instruction
