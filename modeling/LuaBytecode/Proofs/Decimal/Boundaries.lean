import LuaBytecode.Decimal.Shortest
import Mathlib.Algebra.Order.Field.Power
import Mathlib.Data.Rat.Cast.Order
import Mathlib.Tactic.FieldSimp
import Mathlib.Tactic.Positivity
import Mathlib.Tactic.Ring

/-!
# Which decimals are read as a double

Halfway between two neighbouring doubles lies the boundary between the decimals that are read as the
one and as the other, and the boundary itself belongs to the one whose significand is even. In units
that are small enough the boundaries are natural numbers, and those of consecutive doubles
ascend. Hence no decimal lies in the intervals of two doubles, and the shortest decimal of a double,
which lies in its interval, is that of no other.
-/

namespace LuaBytecode

namespace Binary64

/-- The bits of a double without its sign. The finite doubles of either sign are in the order of
their magnitudes. -/
def magnitude (x : Binary64) : Nat := x.bits.toNat % signBit

theorem exponentField_eq (x : Binary64) : x.exponentField = x.magnitude / hiddenBit := by
  have hlt := x.bits.toNat_lt
  simp only [exponentField, magnitude, hiddenBit, signBit]
  omega

theorem fraction_eq (x : Binary64) : x.fraction = x.magnitude % hiddenBit := by
  simp only [fraction, magnitude, hiddenBit, signBit]
  omega

/-- A double is determined by its sign and its magnitude. -/
theorem eq_of_magnitude_eq {x y : Binary64} (hsign : x.isNegative = y.isNegative)
    (hmagnitude : x.magnitude = y.magnitude) : x = y := by
  obtain ⟨a⟩ := x
  obtain ⟨b⟩ := y
  have ha := a.toNat_lt
  have hb := b.toNat_lt
  have hsigns : signBit ≤ a.toNat ↔ signBit ≤ b.toNat := decide_eq_decide.mp hsign
  simp only [magnitude, signBit] at hsigns hmagnitude
  rw [mk.injEq, ← UInt64.toNat_inj]
  omega

end Binary64

namespace Decimal

open Binary64

/-! ### Boundaries -/

/-- How many times the place of the last bit of a significand doubles over that of the smallest
doubles. -/
def doublings (magnitude : Nat) : Nat := magnitude / hiddenBit - 1

def significandOf (magnitude : Nat) : Nat :=
  if magnitude / hiddenBit = 0 then magnitude % hiddenBit else hiddenBit + magnitude % hiddenBit

/-- The boundary above a double, in quarters of the smallest double. -/
def above (magnitude : Nat) : Nat := (4 * significandOf magnitude + 2) * 2 ^ doublings magnitude

def below (magnitude : Nat) : Nat :=
  (4 * significandOf magnitude -
    if magnitude % hiddenBit = 0 ∧ 1 < magnitude / hiddenBit then 1 else 2) *
      2 ^ doublings magnitude

/-- Where the decimals of a double end, those of the next begin. -/
theorem below_succ (m : Nat) : below (m + 1) = above m := by
  have hstep : (m % hiddenBit + 1 < hiddenBit ∧ (m + 1) / hiddenBit = m / hiddenBit ∧
        (m + 1) % hiddenBit = m % hiddenBit + 1) ∨
      m % hiddenBit + 1 = hiddenBit ∧ (m + 1) / hiddenBit = m / hiddenBit + 1 ∧
        (m + 1) % hiddenBit = 0 := by
    simp only [hiddenBit]
    omega
  unfold below above significandOf doublings
  rcases hstep with ⟨_, hfield, hfraction⟩ | ⟨hlast, hfield, hfraction⟩
  · rw [if_neg (c := (m + 1) % hiddenBit = 0 ∧ _) (by omega), hfield, hfraction]
    congr 1
    split <;> omega
  · cases hbinade : m / hiddenBit with
    | zero =>
      rw [if_neg (c := (m + 1) % hiddenBit = 0 ∧ _) (by omega), hfield, hfraction, hbinade,
        if_neg (by omega), if_pos rfl]
      congr 1
      omega
    | succ binade =>
      -- The significand is the last of its binade, and the places double.
      rw [if_pos (c := (m + 1) % hiddenBit = 0 ∧ _) (by omega), hfield, hfraction, hbinade,
        if_neg (by omega), if_neg (by omega), Nat.add_sub_cancel, Nat.add_sub_cancel,
        Nat.pow_succ, ← Nat.mul_assoc, Nat.mul_right_comm]
      congr 1
      omega

theorem below_lt_above (m : Nat) : below m < above m := by
  unfold below above
  apply Nat.mul_lt_mul_of_pos_right
  · split <;> omega
  · exact Nat.two_pow_pos _

theorem above_strictMono : StrictMono above := by
  refine strictMono_nat_of_lt_succ fun m => ?_
  rw [← below_succ]
  exact below_lt_above (m + 1)

/-! ### Intervals -/

def Scaled.value (s : Scaled) : ℚ := s.coefficient * 10 ^ s.exponent

theorem Scaled.value_trim (s : Scaled) : s.trim.value = s.value := by
  fun_induction Scaled.trim s with
  | case1 s h ih =>
    have hten : (s.coefficient : ℚ) = 10 * (s.coefficient / 10 : ℕ) := by
      norm_cast
      omega
    rw [ih, value, value, hten, zpow_add_one₀ (by norm_num)]
    ring
  | case2 s h => rfl

namespace Interval

/-- The decimals of the interval. -/
def Holds (i : Interval) (q : ℚ) : Prop :=
  if i.closed then i.low * 2 ^ i.scale ≤ q ∧ q ≤ i.high * 2 ^ i.scale
  else i.low * 2 ^ i.scale < q ∧ q < i.high * 2 ^ i.scale

theorem zpow_eq_pow_div_pow {a : ℚ} (ha : a ≠ 0) (n : ℤ) :
    a ^ n = a ^ n.toNat / a ^ (-n).toNat := by
  rw [eq_div_iff (pow_ne_zero _ ha), ← zpow_natCast, ← zpow_natCast, ← zpow_add₀ ha]
  congr 1
  omega

/-- What a count of units and a grid point are multiplied by to make them natural numbers. -/
def factor (i : Interval) (place : ℤ) : ℚ := 2 ^ (-i.scale).toNat * 10 ^ (-place).toNat

theorem factor_pos (i : Interval) (place : ℤ) : 0 < i.factor place := by
  unfold factor
  positivity

theorem cast_numerator (i : Interval) (place : ℤ) (units : ℕ) :
    (i.numerator place units : ℚ) = units * 2 ^ i.scale * i.factor place := by
  rw [numerator, factor, zpow_eq_pow_div_pow two_ne_zero, Nat.shiftLeft_eq, Nat.pow_eq]
  push_cast
  field_simp

theorem cast_denominator (i : Interval) (place : ℤ) (point : ℕ) :
    ((point * i.denominator place : ℕ) : ℚ) = point * 10 ^ place * i.factor place := by
  rw [denominator, factor, zpow_eq_pow_div_pow (by norm_num : (10 : ℚ) ≠ 0), Nat.shiftLeft_eq,
    Nat.pow_eq]
  push_cast
  field_simp

theorem contains_iff (i : Interval) (place : ℤ) (point : ℕ) :
    i.contains place point = true ↔ i.Holds (Scaled.value ⟨point, place⟩) := by
  have hfactor := i.factor_pos place
  have hle : ∀ m n : ℕ, m ≤ n ↔ (m : ℚ) ≤ n := fun m n => Nat.cast_le.symm
  have hlt : ∀ m n : ℕ, m < n ↔ (m : ℚ) < n := fun m n => Nat.cast_lt.symm
  unfold contains Holds Scaled.value
  split
  · simp only [Bool.and_eq_true, decide_eq_true_eq, hle, cast_numerator, cast_denominator,
      mul_le_mul_iff_left₀ hfactor]
  · simp only [Bool.and_eq_true, decide_eq_true_eq, hlt, cast_numerator, cast_denominator,
      mul_lt_mul_iff_left₀ hfactor]

theorem holds_of_pointOf {i : Interval} {place : ℤ} {s : Scaled} (h : i.pointOf place = some s) :
    i.Holds s.value := by
  have hfirst : ∀ nearer farther : ℕ,
      (if i.contains place nearer then some ⟨nearer, place⟩
        else if i.contains place farther then some ⟨farther, place⟩ else none) = some s →
      i.Holds s.value := by
    intro nearer farther h
    split at h
    · cases h
      exact (i.contains_iff place nearer).mp ‹_›
    · split at h
      · cases h
        exact (i.contains_iff place farther).mp ‹_›
      · cases h
  exact hfirst _ _ h

theorem value_exact (i : Interval) : i.exact.value = i.middle * 2 ^ i.scale := by
  unfold exact
  by_cases hscale : 0 ≤ i.scale
  · have hpower : (2 : ℚ) ^ i.scale = 2 ^ i.scale.toNat := by
      rw [← zpow_natCast, Int.toNat_of_nonneg hscale]
    rw [if_pos hscale, Scaled.value, zpow_zero, mul_one, Nat.shiftLeft_eq, hpower]
    push_cast
    rfl
  · have hpower : (5 : ℚ) ^ (-i.scale).toNat = 5 ^ (-i.scale) := by
      rw [← zpow_natCast, Int.toNat_of_nonneg (by omega)]
    rw [if_neg hscale, Scaled.value, Nat.pow_eq]
    push_cast
    rw [hpower, show (10 : ℚ) = 5 * 2 by norm_num, mul_zpow, zpow_neg]
    field_simp

/-- The shortest decimal is one of the interval, and if none is found it is the middle. -/
theorem holds_shortest {x : Binary64} (hlow : (Interval.of x).low < (Interval.of x).middle)
    (hhigh : (Interval.of x).middle < (Interval.of x).high) :
    (Interval.of x).Holds (shortest x).value := by
  have hexact : (Interval.of x).Holds (Interval.of x).exact.value := by
    have hunit : (0 : ℚ) < 2 ^ (Interval.of x).scale := by positivity
    have hlow : ((Interval.of x).low : ℚ) < (Interval.of x).middle := Nat.cast_lt.mpr hlow
    have hhigh : ((Interval.of x).middle : ℚ) < (Interval.of x).high := Nat.cast_lt.mpr hhigh
    rw [value_exact, Holds]
    split
    · exact ⟨(mul_lt_mul_of_pos_right hlow hunit).le, (mul_lt_mul_of_pos_right hhigh hunit).le⟩
    · exact ⟨mul_lt_mul_of_pos_right hlow hunit, mul_lt_mul_of_pos_right hhigh hunit⟩
  unfold shortest
  simp only [Scaled.value_trim]
  cases hfound : (List.range 17).findSome? fun further : ℕ =>
      (Interval.of x).pointOf ((Interval.of x).leadingPlace - further) with
  | none => exact hexact
  | some s =>
    obtain ⟨_, _, hpoint⟩ := List.exists_of_findSome?_eq_some hfound
    exact holds_of_pointOf hpoint

end Interval

/-! ### The interval of a double -/

/-- A quarter of the smallest double. -/
def quarter : ℚ := 2 ^ (-1076 : ℤ)

theorem quarter_pos : 0 < quarter := zpow_pos two_pos _

theorem zpow_eq_quarter {scale : ℤ} {doubled : ℕ} (h : scale = doubled + (-1076)) :
    (2 : ℚ) ^ scale = 2 ^ doubled * quarter := by
  rw [h, zpow_add₀ two_ne_zero, zpow_natCast, quarter]

section

variable (x : Binary64)

theorem significand_eq : x.significand = significandOf x.magnitude := by
  rw [significand, significandOf, exponentField_eq, fraction_eq]

theorem scale_of : (Interval.of x).scale = doublings x.magnitude + (-1076) := by
  change x.exponent - 2 = _
  rw [exponent, exponentField_eq, doublings]
  generalize x.magnitude / hiddenBit = field
  split <;> omega

theorem low_of : ((Interval.of x).low : ℚ) * 2 ^ (Interval.of x).scale =
    below x.magnitude * quarter := by
  rw [zpow_eq_quarter (scale_of x), ← mul_assoc, below, Interval.of, significand_eq,
    fraction_eq, exponentField_eq]
  push_cast
  rfl

theorem high_of : ((Interval.of x).high : ℚ) * 2 ^ (Interval.of x).scale =
    above x.magnitude * quarter := by
  rw [zpow_eq_quarter (scale_of x), ← mul_assoc, above, Interval.of, significand_eq]
  push_cast
  rfl

theorem holds_of_ne_zero {x : Binary64} (hx : x.magnitude ≠ 0) :
    (Interval.of x).Holds (shortest x).value := by
  have hpositive : 0 < x.significand := by
    rw [significand_eq, significandOf]
    by_cases hfield : x.magnitude / hiddenBit = 0
    · rw [if_pos hfield]
      simp only [hiddenBit] at hfield ⊢
      omega
    · rw [if_neg hfield]
      exact Nat.add_pos_left (by decide) _
  apply Interval.holds_shortest
  · change 4 * x.significand - _ < 4 * x.significand
    split <;> omega
  · change 4 * x.significand < 4 * x.significand + 2
    omega

/-- Consecutive doubles do not both own the boundary between them. -/
theorem closed_of : (Interval.of x).closed = true ↔ x.magnitude % 2 = 0 := by
  change decide (x.significand % 2 = 0) = true ↔ _
  rw [decide_eq_true_iff, significand_eq, significandOf]
  by_cases hfield : x.magnitude / hiddenBit = 0
  · rw [if_pos hfield]
    simp only [hiddenBit]
    omega
  · rw [if_neg hfield]
    simp only [hiddenBit]
    omega

end

theorem bounds_of_holds {x : Binary64} {q : ℚ} (h : (Interval.of x).Holds q) :
    below x.magnitude * quarter ≤ q ∧ q ≤ above x.magnitude * quarter ∧
      (x.magnitude % 2 = 1 →
        below x.magnitude * quarter < q ∧ q < above x.magnitude * quarter) := by
  unfold Interval.Holds at h
  rw [low_of, high_of] at h
  by_cases hclosed : (Interval.of x).closed = true
  · rw [if_pos hclosed] at h
    have heven := (closed_of x).mp hclosed
    exact ⟨h.1, h.2, fun hodd => by omega⟩
  · rw [if_neg hclosed] at h
    exact ⟨h.1.le, h.2.le, fun _ => h⟩

/-- No decimal is in the intervals of two doubles. -/
theorem not_holds_of_lt {x y : Binary64} {q : ℚ} (hlt : x.magnitude < y.magnitude)
    (hx : (Interval.of x).Holds q) : ¬(Interval.of y).Holds q := by
  intro hy
  obtain ⟨_, hupper, hodd⟩ := bounds_of_holds hx
  obtain ⟨hlower, _, hodd'⟩ := bounds_of_holds hy
  obtain ⟨m, hm⟩ : ∃ m, y.magnitude = m + 1 := Nat.exists_eq_add_one.mpr (by omega)
  rw [hm, below_succ] at hlower hodd'
  rcases Nat.lt_or_eq_of_le (Nat.le_of_lt_succ (hm ▸ hlt)) with hfar | hnext
  · have habove : (above x.magnitude : ℚ) < above m := Nat.cast_lt.mpr (above_strictMono hfar)
    have hboundary := mul_lt_mul_of_pos_right habove quarter_pos
    exact absurd (hlower.trans hupper) (not_le.mpr hboundary)
  · rw [hnext] at hupper hodd
    rcases Nat.mod_two_eq_zero_or_one m with heven | heven
    · exact absurd hupper (not_le.mpr (hodd' (by omega)).1)
    · exact absurd hlower (not_le.mpr (hodd heven).2)

theorem shortest_pos {x : Binary64} (hx : x.magnitude ≠ 0) : 0 < (shortest x).value := by
  obtain ⟨m, hm⟩ := Nat.exists_eq_succ_of_ne_zero hx
  obtain ⟨hlower, _⟩ := bounds_of_holds (holds_of_ne_zero hx)
  have hbelow : 0 < below x.magnitude := by
    rw [hm, below_succ]
    exact Nat.lt_of_le_of_lt (Nat.zero_le _) (below_lt_above m)
  exact lt_of_lt_of_le (mul_pos (Nat.cast_pos.mpr hbelow) quarter_pos) hlower

/-- A double that is not zero is told from all others by its shortest decimal. -/
theorem magnitude_eq_of_shortest {x y : Binary64} (hx : x.magnitude ≠ 0) (hy : y.magnitude ≠ 0)
    (h : (shortest x).value = (shortest y).value) : x.magnitude = y.magnitude := by
  have hx := holds_of_ne_zero hx
  have hy := holds_of_ne_zero hy
  rw [h] at hx
  rcases Nat.lt_trichotomy x.magnitude y.magnitude with hlt | heq | hlt
  · exact absurd hy (not_holds_of_lt hlt hx)
  · exact heq
  · exact absurd hx (not_holds_of_lt hlt hy)

end Decimal

end LuaBytecode
