import LuaBytecode.Decimal.Style
import LuaBytecode.Proofs.Decimal.Boundaries

/-!
# Reading a written double

The text of a decimal is digits with a point, with an exponent, or with both, and the value of such
a text is that of the decimal. So the texts of two finite doubles are the same only if the doubles
are, and none is the text of an integer, which has neither point nor exponent.
-/

namespace LuaBytecode

namespace Decimal

theorem value_append (ds es : List ℕ) :
    value (ds ++ es) = value ds * 10 ^ es.length + value es := by
  induction es using List.reverseRecOn with
  | nil => simp [value]
  | append_singleton es e ih =>
    rw [← List.append_assoc, value_append_digit, value_append_digit, ih, List.length_append,
      List.length_singleton, pow_succ]
    ring

theorem value_replicate_zero (n : ℕ) : value (List.replicate n 0) = 0 := by
  induction n with
  | zero => rfl
  | succ n ih => rw [List.replicate_succ', value_append_digit, ih]

theorem digits_ne_nil (n : ℕ) : digits n ≠ [] := by
  unfold digits
  split <;> simp

end Decimal

/-! ### The value of a text -/

def point : CodePoint := .ofChar '.'

def exponentMark : CodePoint := .ofChar 'e'

def minus : CodePoint := .ofChar '-'

def plus : CodePoint := .ofChar '+'

theorem CodePoint.val_ofDigit {d : ℕ} (h : d < 10) : (ofDigit d).val = 0x30 + d :=
  Nat.mod_eq_of_lt (by omega)

theorem CodePoint.isAsciiDigit_ofDigit {d : ℕ} (h : d < 10) : (ofDigit d).isAsciiDigit = true := by
  simp only [isAsciiDigit, val_ofDigit h, Bool.and_eq_true, decide_eq_true_eq]
  omega

namespace Numeral

def digitsValue (cs : List CodePoint) : ℕ := Decimal.value (cs.map fun c => c.val - 0x30)

/-- The exponent after its mark; a text that ends before the mark has none. -/
def exponentOf : List CodePoint → ℤ
  | _ :: sign :: cs => if sign = minus then -(digitsValue cs : ℤ) else digitsValue cs
  | _ => 0

/-- The value of a text by its first run of digits and what follows them. -/
def valueFrom (whole : List CodePoint) : List CodePoint → ℚ
  | [] => digitsValue whole
  | c :: rest =>
    if c = point then
      let fraction := rest.takeWhile CodePoint.isAsciiDigit
      digitsValue (whole ++ fraction) *
        10 ^ (exponentOf (rest.dropWhile CodePoint.isAsciiDigit) - fraction.length)
    else digitsValue whole * 10 ^ exponentOf (c :: rest)

def value (cs : List CodePoint) : ℚ :=
  valueFrom (cs.takeWhile CodePoint.isAsciiDigit) (cs.dropWhile CodePoint.isAsciiDigit)

/-- What may follow the digits: nothing, or an exponent. -/
inductive Tail : List CodePoint → ℤ → Prop
  | none : Tail [] 0
  | exponent (negative : Bool) {e : List ℕ} (hdigits : ∀ d ∈ e, d < 10) :
    Tail (exponentMark :: (if negative then minus else plus) :: e.map .ofDigit)
      (if negative then -(Decimal.value e : ℤ) else Decimal.value e)

/-- The texts that stand for a value: digits, and then a point with more digits, or an exponent, or
both. -/
inductive Written (q : ℚ) : List CodePoint → Prop
  | pointed {w f : List ℕ} {tail : List CodePoint} {k : ℤ} (hw : w ≠ [])
    (hdigits : ∀ d ∈ w ++ f, d < 10) (htail : Tail tail k)
    (hvalue : Decimal.value (w ++ f) * 10 ^ (k - f.length) = q) :
    Written q (w.map .ofDigit ++ point :: (f.map .ofDigit ++ tail))
  | unpointed {w : List ℕ} {tail : List CodePoint} {k : ℤ} (hw : w ≠ []) (hdigits : ∀ d ∈ w, d < 10)
    (htail : Tail tail k) (hmark : tail ≠ []) (hvalue : Decimal.value w * 10 ^ k = q) :
    Written q (w.map .ofDigit ++ tail)

theorem digitsValue_map {ds : List ℕ} (h : ∀ d ∈ ds, d < 10) :
    digitsValue (ds.map .ofDigit) = Decimal.value ds := by
  unfold digitsValue
  congr 1
  rw [List.map_map]
  conv_rhs => rw [← List.map_id ds]
  apply List.map_congr_left
  intro d hd
  rw [Function.comp_apply, CodePoint.val_ofDigit (h d hd), Nat.add_sub_cancel_left, id]

theorem span_digits {ds : List ℕ} (h : ∀ d ∈ ds, d < 10) (rest : List CodePoint)
    (hrest : ∀ c ∈ rest.head?, c.isAsciiDigit = false) :
    (ds.map CodePoint.ofDigit ++ rest).takeWhile CodePoint.isAsciiDigit = ds.map .ofDigit ∧
      (ds.map CodePoint.ofDigit ++ rest).dropWhile CodePoint.isAsciiDigit = rest := by
  have hdigits : ∀ c ∈ ds.map CodePoint.ofDigit, c.isAsciiDigit = true := by
    intro c hc
    obtain ⟨d, hd, rfl⟩ := List.mem_map.mp hc
    exact CodePoint.isAsciiDigit_ofDigit (h d hd)
  rw [List.takeWhile_append_of_pos hdigits, List.dropWhile_append_of_pos hdigits]
  cases rest with
  | nil => exact ⟨List.append_nil _, rfl⟩
  | cons c rest =>
    have hc : ¬c.isAsciiDigit = true := by
      rw [hrest c rfl]
      exact Bool.false_ne_true
    rw [List.takeWhile_cons_of_neg hc, List.dropWhile_cons_of_neg hc]
    exact ⟨List.append_nil _, rfl⟩

theorem Tail.head? {tail : List CodePoint} {k : ℤ} (h : Tail tail k) :
    ∀ c ∈ tail.head?, c = exponentMark := by
  cases h with
  | none => intro c hc; cases hc
  | exponent negative hdigits => intro c hc; cases hc; rfl

theorem Tail.exponentOf {tail : List CodePoint} {k : ℤ} (h : Tail tail k) :
    exponentOf tail = k := by
  cases h with
  | none => rfl
  | exponent negative hdigits =>
    cases negative with
    | true => simp [Numeral.exponentOf, digitsValue_map hdigits]
    | false =>
      have hplus : plus ≠ minus := by decide
      simp [Numeral.exponentOf, digitsValue_map hdigits, hplus]

/-- A text stands for one value. -/
theorem Written.value_eq {q : ℚ} {cs : List CodePoint} (h : Written q cs) : value cs = q := by
  have hmark : exponentMark.isAsciiDigit = false := by decide
  have hpoint : point.isAsciiDigit = false := by decide
  cases h with
  | @pointed w f tail k hw hdigits htail hvalue =>
    have hws : ∀ d ∈ w, d < 10 := fun d hd => hdigits d (List.mem_append_left f hd)
    have hfs : ∀ d ∈ f, d < 10 := fun d hd => hdigits d (List.mem_append_right w hd)
    obtain ⟨htake, hdrop⟩ := span_digits hws (point :: (f.map .ofDigit ++ tail))
      (by simp [hpoint])
    obtain ⟨htake', hdrop'⟩ := span_digits hfs tail
      (fun c hc => by rw [htail.head? c hc, hmark])
    rw [value, htake, hdrop, valueFrom, if_pos rfl]
    simp only
    rw [htake', hdrop', htail.exponentOf, ← List.map_append, digitsValue_map hdigits,
      List.length_map]
    exact hvalue
  | @unpointed w tail k hw hdigits htail hne hvalue =>
    obtain ⟨htake, hdrop⟩ := span_digits hdigits tail
      (fun c hc => by rw [htail.head? c hc, hmark])
    rw [value, htake, hdrop]
    cases tail with
    | nil => exact absurd rfl hne
    | cons c rest =>
      have hc : c = exponentMark := htail.head? c rfl
      have hother : ¬c = point := by
        rw [hc]
        decide
      rw [valueFrom, if_neg hother, htail.exponentOf, digitsValue_map hdigits]
      exact hvalue

end Numeral

/-! ### What the styles write -/

namespace DecimalStyle

open Numeral

theorem codes_digitText (ds : List ℕ) : (digitText ds).codes = ds.map .ofDigit := rfl

theorem codes_zeros (n : ℕ) : (zeros n).codes = (List.replicate n 0).map .ofDigit := by
  rw [zeros, List.map_replicate]

theorem codes_zeroPoint : ("0." : Text).codes = [.ofDigit 0, point] := by decide

theorem codes_point : ("." : Text).codes = [point] := by decide

theorem codes_pointZero : (".0" : Text).codes = [point, .ofDigit 0] := by decide

theorem lt_ten_of_mem_zeros (n : ℕ) : ∀ d ∈ List.replicate n 0, d < 10 := by
  intro d hd
  rw [List.eq_of_mem_replicate hd]
  decide

theorem written_positional {ds : List ℕ} (hne : ds ≠ []) (hdigits : ∀ d ∈ ds, d < 10) (place : ℤ) :
    Written (Decimal.value ds * 10 ^ (place - ds.length)) (positional ds place).codes := by
  have hpositive := List.length_pos_of_ne_nil hne
  unfold positional
  split
  · let zero := List.replicate (-place).toNat 0
    have hcodes : ("0." ++ zeros (-place).toNat ++ digitText ds : Text).codes =
        [0].map .ofDigit ++ point :: ((zero ++ ds).map .ofDigit ++ []) := by
      simp only [zero, Text.codes_append, codes_zeroPoint, codes_zeros, codes_digitText,
        List.map_append, List.append_nil, List.append_assoc]
      rfl
    have hvalue : Decimal.value ([0] ++ (zero ++ ds)) = Decimal.value ds := by
      have hzero : Decimal.value [0] = 0 := rfl
      rw [Decimal.value_append, Decimal.value_append, Decimal.value_replicate_zero, hzero,
        Nat.zero_mul, Nat.zero_mul, Nat.zero_add, Nat.zero_add]
    have hlength : ((zero ++ ds).length : ℤ) = ds.length - place := by
      rw [List.length_append, List.length_replicate]
      omega
    rw [hcodes]
    refine .pointed (by simp) ?_ .none ?_
    · simp only [List.forall_mem_append, List.forall_mem_singleton]
      exact ⟨by decide, lt_ten_of_mem_zeros _, hdigits⟩
    · rw [hvalue, hlength]
      congr 2
      omega
  · split
    · have hcodes : (digitText (ds.take place.toNat) ++ "." ++ digitText (ds.drop place.toNat) :
          Text).codes = (ds.take place.toNat).map .ofDigit ++
            point :: ((ds.drop place.toNat).map .ofDigit ++ []) := by
        simp only [Text.codes_append, codes_point, codes_digitText, List.append_nil,
          List.append_assoc, List.singleton_append]
      have hlength : ((ds.drop place.toNat).length : ℤ) = ds.length - place := by
        rw [List.length_drop]
        omega
      rw [hcodes]
      refine .pointed ?_ ?_ .none ?_
      · rw [← List.length_pos_iff, List.length_take]
        omega
      · rwa [List.take_append_drop]
      · rw [List.take_append_drop, hlength]
        congr 2
        omega
    · let zero := List.replicate (place.toNat - ds.length) 0
      have hcodes : (digitText ds ++ zeros (place.toNat - ds.length) ++ ".0" : Text).codes =
          (ds ++ zero).map .ofDigit ++ point :: ([0].map .ofDigit ++ []) := by
        simp only [zero, Text.codes_append, codes_pointZero, codes_zeros, codes_digitText,
          List.map_append, List.append_nil, List.append_assoc]
        rfl
      have hvalue : Decimal.value (ds ++ zero ++ [0]) =
          Decimal.value ds * 10 ^ (place.toNat - ds.length + 1) := by
        rw [Decimal.value_append_digit, Decimal.value_append, Decimal.value_replicate_zero,
          List.length_replicate, pow_succ]
        ring
      rw [hcodes]
      refine .pointed (by simp [hne]) ?_ .none ?_
      · simp only [List.forall_mem_append, List.forall_mem_singleton]
        exact ⟨⟨hdigits, lt_ten_of_mem_zeros _⟩, by decide⟩
      · rw [hvalue, List.length_singleton]
        push_cast
        rw [mul_assoc, ← zpow_natCast, ← zpow_add₀ (by norm_num)]
        congr 2
        omega

/-- The digits of an exponent are filled up with zeros, which do not change it. -/
theorem tail_exponent (width : ℕ) (leading : ℤ) :
    Tail (exponentMark :: (if leading < 0 then minus else plus) ::
      (List.replicate width 0 ++ Decimal.digits leading.natAbs).map .ofDigit) leading := by
  have hdigits : ∀ d ∈ List.replicate width 0 ++ Decimal.digits leading.natAbs, d < 10 := by
    rw [List.forall_mem_append]
    exact ⟨lt_ten_of_mem_zeros width, Decimal.digits_lt_ten _⟩
  have hvalue : Decimal.value (List.replicate width 0 ++ Decimal.digits leading.natAbs) =
      leading.natAbs := by
    rw [Decimal.value_append, Decimal.value_replicate_zero, Decimal.value_digits, Nat.zero_mul,
      Nat.zero_add]
  by_cases hnegative : leading < 0
  · have htail := Tail.exponent true hdigits
    rw [hvalue, if_pos rfl, if_pos rfl] at htail
    rw [if_pos hnegative]
    convert htail using 1
    omega
  · have htail := Tail.exponent false hdigits
    rw [hvalue, if_neg Bool.false_ne_true, if_neg Bool.false_ne_true] at htail
    rw [if_neg hnegative]
    convert htail using 1
    omega

theorem written_scientific (style : DecimalStyle) {ds : List ℕ} (hne : ds ≠ [])
    (hdigits : ∀ d ∈ ds, d < 10) (leading : ℤ) :
    Written (Decimal.value ds * 10 ^ (leading + 1 - ds.length))
      (style.scientific ds leading).codes := by
  have hpositive := List.length_pos_of_ne_nil hne
  have htail :=
    tail_exponent (style.exponentDigits - (Decimal.digits leading.natAbs).length) leading
  have hmark : ("e" : Text).codes = [exponentMark] := by decide
  have hsign : ((if leading < 0 then "-" else "+" : String) : Text).codes =
      [if leading < 0 then minus else plus] := by
    split <;> decide
  have hfraction : (if ds.length ≤ 1 then Text.empty else "." ++ digitText (ds.drop 1)).codes =
      if ds.length ≤ 1 then [] else point :: (ds.drop 1).map .ofDigit := by
    split
    · rfl
    · rw [Text.codes_append, codes_point, codes_digitText, List.singleton_append]
  have hcodes : (style.scientific ds leading).codes = (ds.take 1).map .ofDigit ++
      (if ds.length ≤ 1 then [] else point :: (ds.drop 1).map .ofDigit) ++
        exponentMark :: (if leading < 0 then minus else plus) ::
          (List.replicate (style.exponentDigits - (Decimal.digits leading.natAbs).length) 0 ++
            Decimal.digits leading.natAbs).map .ofDigit := by
    simp only [scientific, Text.codes_append, hmark, hsign, hfraction, codes_digitText,
      codes_zeros, List.map_append, List.append_assoc, List.cons_append, List.nil_append]
  rw [hcodes]
  split
  · have hall : ds.take 1 = ds := List.take_of_length_le ‹_›
    rw [hall, List.append_nil]
    refine .unpointed hne hdigits htail (by simp) ?_
    congr 2
    omega
  · have hlength : ((ds.drop 1).length : ℤ) = ds.length - 1 := by
      rw [List.length_drop]
      omega
    rw [List.append_assoc, List.cons_append]
    refine .pointed ?_ ?_ htail ?_
    · rw [← List.length_pos_iff, List.length_take]
      omega
    · rwa [List.take_append_drop]
    · rw [List.take_append_drop, hlength]
      congr 2
      omega

/-- Every style writes a text whose value is that of the decimal. -/
theorem written_write (style : DecimalStyle) (s : Decimal.Scaled) :
    Written s.value (style.write s).codes := by
  let ds := Decimal.digits s.coefficient
  have hdigits := Decimal.digits_lt_ten s.coefficient
  have hne := Decimal.digits_ne_nil s.coefficient
  have hplace : s.exponent + ds.length - 1 + 1 - ds.length = s.exponent := by omega
  have hvalue : (Decimal.value ds : ℚ) * 10 ^ (s.exponent + ds.length - 1 + 1 - ds.length) =
      s.value := by
    rw [hplace, Decimal.value_digits, Decimal.Scaled.value]
  rw [← hvalue]
  unfold write
  simp only
  split
  · exact written_positional hne hdigits _
  · exact style.written_scientific hne hdigits _

end DecimalStyle

/-! ### The texts of doubles -/

def CodePoint.isNumeric (c : CodePoint) : Bool :=
  c.isAsciiDigit || c == point || c == exponentMark || c == minus || c == plus

namespace Numeral

/-- A text that stands for a value begins with a digit, has no characters but those of numbers, and
among them a point or the mark of an exponent. -/
structure Shape (cs : List CodePoint) : Prop where
  head : ∃ c rest, cs = c :: rest ∧ c.isAsciiDigit = true
  numeric : ∀ c ∈ cs, c.isNumeric = true
  marked : ∃ c ∈ cs, c = point ∨ c = exponentMark

theorem isNumeric_of_digit {c : CodePoint} (h : c.isAsciiDigit = true) : c.isNumeric = true := by
  simp [CodePoint.isNumeric, h]

theorem isNumeric_map {ds : List ℕ} (h : ∀ d ∈ ds, d < 10) :
    ∀ c ∈ ds.map CodePoint.ofDigit, c.isNumeric = true := by
  intro c hc
  obtain ⟨d, hd, rfl⟩ := List.mem_map.mp hc
  exact isNumeric_of_digit (CodePoint.isAsciiDigit_ofDigit (h d hd))

theorem Tail.isNumeric {tail : List CodePoint} {k : ℤ} (h : Tail tail k) :
    ∀ c ∈ tail, c.isNumeric = true := by
  cases h with
  | none => simp
  | exponent negative hdigits =>
    rw [List.forall_mem_cons, List.forall_mem_cons]
    refine ⟨by decide, ?_, isNumeric_map hdigits⟩
    cases negative <;> decide

theorem exists_digit {w : List ℕ} (hw : w ≠ []) (hdigits : ∀ d ∈ w, d < 10)
    (rest : List CodePoint) :
    ∃ c more, w.map .ofDigit ++ rest = c :: more ∧ c.isAsciiDigit = true := by
  obtain ⟨d, ds, rfl⟩ := List.exists_cons_of_ne_nil hw
  exact ⟨_, _, rfl, CodePoint.isAsciiDigit_ofDigit (hdigits d List.mem_cons_self)⟩

theorem Written.shape {q : ℚ} {cs : List CodePoint} (h : Written q cs) : Shape cs := by
  cases h with
  | @pointed w f tail k hw hdigits htail hvalue =>
    rw [List.forall_mem_append] at hdigits
    refine ⟨exists_digit hw hdigits.1 _, ?_, point, by simp, .inl rfl⟩
    rw [List.forall_mem_append, List.forall_mem_cons, List.forall_mem_append]
    exact ⟨isNumeric_map hdigits.1, by decide, isNumeric_map hdigits.2, htail.isNumeric⟩
  | @unpointed w tail k hw hdigits htail hne hvalue =>
    obtain ⟨c, rest, rfl⟩ := List.exists_cons_of_ne_nil hne
    refine ⟨exists_digit hw hdigits _, ?_, c, by simp, .inr (htail.head? c rfl)⟩
    rw [List.forall_mem_append]
    exact ⟨isNumeric_map hdigits, htail.isNumeric⟩

end Numeral

namespace Binary64

open Numeral

theorem isZero_iff (x : Binary64) : x.isZero = true ↔ x.magnitude = 0 := by
  rw [isZero, exponentField_eq, fraction_eq, Bool.and_eq_true, beq_iff_eq, beq_iff_eq]
  simp only [hiddenBit]
  omega

/-- The value that the text of a finite double stands for. -/
def writtenValue (x : Binary64) : ℚ := if x.isZero then 0 else (Decimal.shortest x).value

theorem written_magnitudeText {x : Binary64} (hx : x.isFinite = true) :
    Written x.writtenValue x.magnitudeText.codes := by
  have htext : x.magnitudeText =
      if x.isZero then ("0.0" : Text) else DecimalStyle.standard.write (Decimal.shortest x) := by
    rw [magnitudeText, hx]
    rfl
  rw [htext, writtenValue]
  by_cases hzero : x.isZero = true
  · have hcodes : ("0.0" : Text).codes = [0].map .ofDigit ++ point :: ([0].map .ofDigit ++ []) := by
      decide
    rw [if_pos hzero, if_pos hzero, hcodes]
    exact .pointed (by decide) (by decide) .none (by simp [Decimal.value])
  · rw [if_neg hzero, if_neg hzero]
    exact DecimalStyle.standard.written_write _

theorem magnitude_eq_of_writtenValue {x y : Binary64} (h : x.writtenValue = y.writtenValue) :
    x.magnitude = y.magnitude := by
  unfold writtenValue at h
  simp only [isZero_iff] at h
  by_cases hx : x.magnitude = 0
  · by_cases hy : y.magnitude = 0
    · rw [hx, hy]
    · rw [if_pos hx, if_neg hy] at h
      exact absurd h (Decimal.shortest_pos hy).ne
  · by_cases hy : y.magnitude = 0
    · rw [if_neg hx, if_pos hy] at h
      exact absurd h (Decimal.shortest_pos hx).ne'
    · rw [if_neg hx, if_neg hy] at h
      exact Decimal.magnitude_eq_of_shortest hx hy h

theorem isNaN_of_isFinite {x : Binary64} (hx : x.isFinite = true) : x.isNaN = false := by
  have hfield : (x.exponentField == 2047) = false := by simpa [isFinite] using hx
  rw [isNaN, hfield, Bool.false_and]

theorem codes_toText {x : Binary64} (hx : x.isFinite = true) :
    x.toText.codes = (if x.isNegative then [minus] else []) ++ x.magnitudeText.codes := by
  have hminus : ("-" : Text).codes = [minus] := by decide
  rw [toText, isNaN_of_isFinite hx, if_neg Bool.false_ne_true]
  split
  · rw [Text.codes_append, hminus]
  · rfl

theorem ne_minus_of_magnitudeText {x : Binary64} (hx : x.isFinite = true) (rest : List CodePoint) :
    x.magnitudeText.codes ≠ minus :: rest := by
  obtain ⟨c, more, hcodes, hdigit⟩ := (written_magnitudeText hx).shape.head
  intro h
  cases hcodes.symm.trans h
  exact absurd hdigit (by decide)

/-- A finite double is told from all others by its text. -/
theorem toText_injective {x y : Binary64} (hx : x.isFinite = true) (hy : y.isFinite = true)
    (h : x.toText = y.toText) : x = y := by
  have hcodes := congrArg Text.codes h
  rw [codes_toText hx, codes_toText hy] at hcodes
  have hmagnitude : x.magnitudeText.codes = y.magnitudeText.codes → x.magnitude = y.magnitude := by
    intro heq
    have hvalue := (written_magnitudeText hx).value_eq
    rw [heq, (written_magnitudeText hy).value_eq] at hvalue
    exact magnitude_eq_of_writtenValue hvalue.symm
  cases hnegative : x.isNegative <;> cases hnegative' : y.isNegative <;>
    rw [hnegative, hnegative'] at hcodes
  · exact eq_of_magnitude_eq (hnegative.trans hnegative'.symm) (hmagnitude hcodes)
  · exact absurd hcodes (ne_minus_of_magnitudeText hx _)
  · exact absurd hcodes.symm (ne_minus_of_magnitudeText hy _)
  · exact eq_of_magnitude_eq (hnegative.trans hnegative'.symm)
      (hmagnitude (List.cons.inj hcodes).2)

theorem isNumeric_toText {x : Binary64} (hx : x.isFinite = true) :
    ∀ c ∈ x.toText.codes, c.isNumeric = true := by
  rw [codes_toText hx, List.forall_mem_append]
  refine ⟨?_, (written_magnitudeText hx).shape.numeric⟩
  split
  · simp only [List.forall_mem_singleton]
    decide
  · simp

theorem exists_mark_toText {x : Binary64} (hx : x.isFinite = true) :
    ∃ c ∈ x.toText.codes, c = point ∨ c = exponentMark := by
  obtain ⟨c, hc, hmark⟩ := (written_magnitudeText hx).shape.marked
  rw [codes_toText hx]
  exact ⟨c, List.mem_append_right _ hc, hmark⟩

end Binary64

/-! ### The texts of integers -/

namespace Text

theorem codes_ofInt (n : ℤ) : (ofInt n).codes =
    (if n < 0 then [minus] else []) ++ (Decimal.digits n.natAbs).map .ofDigit := by
  cases n with
  | ofNat n =>
    rw [if_neg (by simp)]
    rfl
  | negSucc n =>
    have hminus : ("-" : Text).codes = [minus] := by decide
    rw [if_pos (Int.negSucc_lt_zero n), ofInt, codes_append, hminus]
    rfl

theorem isNumeric_ofInt (n : ℤ) : ∀ c ∈ (ofInt n).codes, c.isNumeric = true := by
  rw [codes_ofInt, List.forall_mem_append]
  refine ⟨?_, Numeral.isNumeric_map (Decimal.digits_lt_ten _)⟩
  split
  · simp only [List.forall_mem_singleton]
    decide
  · simp

/-- The text of an integer has neither point nor exponent. -/
theorem not_mark_ofInt (n : ℤ) : ∀ c ∈ (ofInt n).codes, ¬(c = point ∨ c = exponentMark) := by
  rw [codes_ofInt, List.forall_mem_append]
  constructor
  · split
    · simp only [List.forall_mem_singleton]
      decide
    · simp
  · intro c hc hmark
    obtain ⟨d, hd, rfl⟩ := List.mem_map.mp hc
    have hdigit := CodePoint.isAsciiDigit_ofDigit (Decimal.digits_lt_ten _ d hd)
    rcases hmark with hmark | hmark
    · rw [hmark] at hdigit
      exact absurd hdigit (by decide)
    · rw [hmark] at hdigit
      exact absurd hdigit (by decide)

theorem ofInt_injective {m n : ℤ} (h : ofInt m = ofInt n) : m = n := by
  have hcodes := congrArg codes h
  rw [codes_ofInt, codes_ofInt] at hcodes
  have hdigits : ∀ {a b : ℕ}, (Decimal.digits a).map CodePoint.ofDigit =
      (Decimal.digits b).map .ofDigit → a = b := by
    intro a b hab
    have hvalue := Numeral.digitsValue_map (Decimal.digits_lt_ten a)
    rw [hab, Numeral.digitsValue_map (Decimal.digits_lt_ten b), Decimal.value_digits,
      Decimal.value_digits] at hvalue
    exact hvalue.symm
  have hhead : ∀ {a : ℕ} {rest : List CodePoint},
      (Decimal.digits a).map CodePoint.ofDigit ≠ minus :: rest := by
    intro a rest hcons
    have hmem : minus ∈ (Decimal.digits a).map CodePoint.ofDigit := by
      rw [hcons]
      exact List.mem_cons_self
    obtain ⟨d, hd, hminus⟩ := List.mem_map.mp hmem
    have hdigit := CodePoint.isAsciiDigit_ofDigit (Decimal.digits_lt_ten a d hd)
    rw [hminus] at hdigit
    exact absurd hdigit (by decide)
  by_cases hm : m < 0
  · by_cases hn : n < 0
    · rw [if_pos hm, if_pos hn] at hcodes
      have hnat := hdigits (List.cons.inj hcodes).2
      omega
    · rw [if_pos hm, if_neg hn] at hcodes
      exact absurd hcodes.symm hhead
  · by_cases hn : n < 0
    · rw [if_neg hm, if_pos hn] at hcodes
      exact absurd hcodes hhead
    · rw [if_neg hm, if_neg hn] at hcodes
      have hnat := hdigits hcodes
      omega

end Text

end LuaBytecode
