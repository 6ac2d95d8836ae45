import LuaBytecode.Proofs.Decimal.Written
import Mathlib.Tactic.Linarith

/-!
# The number of a double

A double is a finite number, an infinity of either sign, or no number. The two zeros are one number,
and apart from them every finite number has one double, because the doubles of a sign ascend with
their magnitudes. The equality of doubles is that of the numbers, and what is no number differs from
itself.
-/

namespace LuaBytecode

namespace Decimal

open Binary64

/-- The distance of a double from zero, in units of the smallest double. -/
def units (magnitude : Nat) : Nat := significandOf magnitude * 2 ^ doublings magnitude

theorem below_le_units (m : Nat) : below m ≤ 4 * units m := by
  rw [below, units, ← Nat.mul_assoc]
  exact Nat.mul_le_mul_right _ (Nat.sub_le _ _)

theorem units_lt_above (m : Nat) : 4 * units m < above m := by
  rw [above, units, ← Nat.mul_assoc]
  exact Nat.mul_lt_mul_of_pos_right (by omega) (Nat.two_pow_pos _)

theorem units_strictMono : StrictMono units := by
  refine strictMono_nat_of_lt_succ fun m => ?_
  have habove := units_lt_above m
  have hbelow := below_le_units (m + 1)
  rw [below_succ] at hbelow
  omega

end Decimal

namespace Binary64

open Decimal

inductive Number where
  | nan
  | infinite (negative : Bool)
  | finite (value : ℚ)

/-- The value of a finite double. -/
def value (x : Binary64) : ℚ := (if x.isNegative then -1 else 1) * (x.significand * 2 ^ x.exponent)

def number (x : Binary64) : Number :=
  if x.isNaN then .nan else if x.isFinite then .finite x.value else .infinite x.isNegative

theorem number_eq_nan_iff {x : Binary64} : x.number = .nan ↔ x.isNaN = true := by
  unfold number
  split
  · exact iff_of_true rfl ‹_›
  · split <;> exact iff_of_false (fun h => by cases h) ‹_›

theorem significand_mul_zpow (x : Binary64) :
    (x.significand * 2 ^ x.exponent : ℚ) = units x.magnitude * (4 * quarter) := by
  have hquarter : (2 : ℚ) ^ (x.exponent - 2) = 2 ^ doublings x.magnitude * quarter :=
    zpow_eq_quarter (scale_of x)
  have hpower : (2 : ℚ) ^ x.exponent = 4 * 2 ^ (x.exponent - 2) := by
    rw [zpow_sub₀ two_ne_zero]
    norm_num
    ring
  rw [hpower, hquarter, significand_eq, units]
  push_cast
  ring

/-- Only the two zeros have one value. -/
theorem value_eq_iff {x y : Binary64} :
    x.value = y.value ↔ x = y ∨ x.isZero = true ∧ y.isZero = true := by
  have hunit : (0 : ℚ) < 4 * quarter := mul_pos four_pos quarter_pos
  have hzero : units 0 = 0 := by decide
  rw [value, value, significand_mul_zpow, significand_mul_zpow, ← mul_assoc _ _ (4 * quarter),
    ← mul_assoc _ _ (4 * quarter), mul_left_inj' hunit.ne', isZero_iff, isZero_iff]
  constructor
  · intro hvalue
    by_cases hsign : x.isNegative = y.isNegative
    · -- The sign cancels, and the magnitude is told by the distance from zero.
      have hunits : (units x.magnitude : ℚ) = units y.magnitude := by
        rw [hsign] at hvalue
        split at hvalue <;> linarith
      exact .inl (eq_of_magnitude_eq hsign (units_strictMono.injective (Nat.cast_inj.mp hunits)))
    · -- A number and one of the other sign have one value only at zero.
      have hsum : (units x.magnitude : ℚ) + units y.magnitude = 0 := by
        rcases Bool.eq_false_or_eq_true x.isNegative with hx | hx
        · have hy : y.isNegative = false := by simpa [hx] using hsign
          rw [hx, hy, if_pos rfl, if_neg Bool.false_ne_true] at hvalue
          linarith
        · have hy : y.isNegative = true := by simpa [hx] using hsign
          rw [hx, hy, if_pos rfl, if_neg Bool.false_ne_true] at hvalue
          linarith
      have hunits : units x.magnitude = 0 ∧ units y.magnitude = 0 :=
        Nat.add_eq_zero_iff.mp (by exact_mod_cast hsum)
      have hmagnitude : ∀ m : Nat, units m = 0 → m = 0 := fun m hm =>
        units_strictMono.injective (hm.trans hzero.symm)
      exact .inr ⟨hmagnitude _ hunits.1, hmagnitude _ hunits.2⟩
  · rintro (rfl | ⟨hx, hy⟩)
    · rfl
    · rw [hx, hy, hzero]
      simp

theorem eq_of_infinite {x y : Binary64} (hx : x.isNaN = false) (hy : y.isNaN = false)
    (hxf : x.isFinite = false) (hyf : y.isFinite = false) (hsign : x.isNegative = y.isNegative) :
    x = y := by
  have hmagnitude : ∀ z : Binary64, z.isNaN = false → z.isFinite = false →
      z.magnitude = 2047 * hiddenBit := by
    intro z hnan hfinite
    simp only [isNaN, isFinite, exponentField_eq, fraction_eq] at hnan hfinite
    simp only [bne_eq_false_iff_eq, Bool.and_eq_false_iff, beq_eq_false_iff_ne] at hnan hfinite
    simp only [hiddenBit] at hnan hfinite ⊢
    omega
  exact eq_of_magnitude_eq hsign ((hmagnitude x hx hxf).trans (hmagnitude y hy hyf).symm)

theorem isFinite_of_isZero {x : Binary64} (h : x.isZero = true) : x.isFinite = true := by
  rw [isZero_iff] at h
  rw [isFinite, exponentField_eq, h]
  rfl

theorem number_eq_iff {x y : Binary64} (hx : x.isNaN = false) (hy : y.isNaN = false) :
    x.number = y.number ↔ x = y ∨ x.isZero = true ∧ y.isZero = true := by
  have hnumber : ∀ z : Binary64, z.isNaN = false →
      z.number = if z.isFinite then .finite z.value else .infinite z.isNegative := by
    intro z hz
    rw [number, hz, if_neg Bool.false_ne_true]
  rw [hnumber x hx, hnumber y hy]
  by_cases hxf : x.isFinite = true
  · by_cases hyf : y.isFinite = true
    · rw [if_pos hxf, if_pos hyf, Number.finite.injEq, value_eq_iff]
    · rw [if_pos hxf, if_neg hyf]
      refine ⟨fun h => (by cases h), ?_⟩
      rintro (rfl | ⟨_, hzero⟩)
      · exact absurd hxf hyf
      · exact absurd (isFinite_of_isZero hzero) hyf
  · have hnonzero : ¬(x.isZero = true ∧ y.isZero = true) :=
      fun h => hxf (isFinite_of_isZero h.1)
    by_cases hyf : y.isFinite = true
    · rw [if_neg hxf, if_pos hyf]
      refine ⟨fun h => (by cases h), ?_⟩
      rintro (rfl | hzero)
      · exact absurd hyf hxf
      · exact absurd hzero hnonzero
    · rw [if_neg hxf, if_neg hyf, Number.infinite.injEq, or_iff_left hnonzero]
      refine ⟨fun hsign => ?_, fun h => h ▸ rfl⟩
      exact eq_of_infinite hx hy (Bool.not_eq_true _ ▸ hxf) (Bool.not_eq_true _ ▸ hyf) hsign

/-- Two doubles are the same number if both are numbers and these are equal. -/
theorem sameNumber_iff {x y : Binary64} :
    x.sameNumber y = true ↔ x.number ≠ .nan ∧ x.number = y.number := by
  have hbits : (x.bits == y.bits) = true ↔ x = y := by
    obtain ⟨a⟩ := x
    obtain ⟨b⟩ := y
    rw [beq_iff_eq, mk.injEq]
  rw [sameNumber, Bool.and_eq_true, Bool.and_eq_true, Bool.or_eq_true, hbits, Bool.and_eq_true,
    Bool.not_eq_true', Bool.not_eq_true', ne_eq, number_eq_nan_iff]
  constructor
  · intro h
    obtain ⟨⟨hx, hy⟩, hvalue⟩ := h
    exact ⟨by simp [hx], (number_eq_iff hx hy).mpr hvalue⟩
  · intro h
    obtain ⟨hx, hequal⟩ := h
    have hy : ¬y.isNaN = true := by
      intro hy
      exact hx (number_eq_nan_iff.mp (hequal.trans (number_eq_nan_iff.mpr hy)))
    rw [Bool.not_eq_true] at hx hy
    exact ⟨⟨hx, hy⟩, (number_eq_iff hx hy).mp hequal⟩

end Binary64

end LuaBytecode
