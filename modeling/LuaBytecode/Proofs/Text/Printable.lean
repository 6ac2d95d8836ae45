import LuaBytecode.Log.Record
import LuaBytecode.Proofs.Text.Pieces

/-!
# Printable texts

A quoted text is printable throughout, whatever the text was. What a decode notes is made of quoted
texts, numbers and words, so that the record of a note is a line of printable code points. None of
these is a surrogate, and the record always has an encoding.
-/

namespace LuaBytecode

namespace CodePoint

theorem isSurrogate_of_isPrintable {c : CodePoint} (h : c.isPrintable = true) :
    c.isSurrogate = false := by
  have hrange : (0xD7FC, 0xF8FF) ∈ unprintableRanges := by decide
  rw [isPrintable, Bool.not_eq_true', List.any_eq_false] at h
  have houtside := h _ hrange
  rw [Bool.eq_false_iff, ne_eq, isSurrogate_eq_true_iff]
  simp only [Bool.and_eq_true, decide_eq_true_eq] at houtside
  omega

/-- An ASCII character other than a control character. -/
def isBasic (c : CodePoint) : Bool := 0x20 ≤ c.val && c.val < 0x7F

theorem isPrintable_of_isBasic {c : CodePoint} (h : c.isBasic = true) : c.isPrintable = true := by
  have hgap : ∀ range ∈ unprintableRanges, range.2 < 0x20 ∨ 0x7F ≤ range.1 := by decide +kernel
  rw [isPrintable, Bool.not_eq_true', List.any_eq_false]
  intro range hrange
  have hside := hgap range hrange
  simp only [isBasic, Bool.and_eq_true, decide_eq_true_eq] at h ⊢
  omega

theorem isPrintable_ofDigit {d : Nat} (h : d < 10) : (ofDigit d).isPrintable = true := by
  have hall : ∀ d : Fin 10, (ofDigit d).isBasic = true := by decide
  exact isPrintable_of_isBasic (hall ⟨d, h⟩)

theorem isPrintable_ofHexDigit {d : Nat} (h : d < 16) : (ofHexDigit d).isPrintable = true := by
  have hall : ∀ d : Fin 16, (ofHexDigit d).isBasic = true := by decide
  exact isPrintable_of_isBasic (hall ⟨d, h⟩)

end CodePoint

namespace Text

def isPrintable (t : Text) : Bool := t.codes.all CodePoint.isPrintable

theorem isPrintable_iff {t : Text} :
    t.isPrintable = true ↔ ∀ c ∈ t.codes, c.isPrintable = true :=
  List.all_eq_true

theorem isPrintable_of_isBasic {t : Text} (h : t.codes.all CodePoint.isBasic = true) :
    t.isPrintable = true :=
  isPrintable_iff.mpr fun c hc => CodePoint.isPrintable_of_isBasic (List.all_eq_true.mp h c hc)

theorem isPrintable_append (s t : Text) :
    (s ++ t).isPrintable = (s.isPrintable && t.isPrintable) :=
  List.all_append

theorem isPrintable_concat {ts : List Text} (h : ∀ t ∈ ts, t.isPrintable = true) :
    (concat ts).isPrintable = true := by
  rw [isPrintable_iff, concat]
  intro c hc
  obtain ⟨t, ht, hct⟩ := List.mem_flatMap.mp hc
  exact isPrintable_iff.mp (h t ht) c hct

theorem isPrintable_ofNat (n : Nat) : (ofNat n).isPrintable = true := by
  rw [isPrintable_iff, ofNat, List.forall_mem_map]
  intro d hd
  exact CodePoint.isPrintable_ofDigit (Decimal.digits_lt_ten n d hd)

theorem isPrintable_ofInt (n : Int) : (ofInt n).isPrintable = true := by
  cases n with
  | ofNat n => exact isPrintable_ofNat n
  | negSucc n =>
    have hminus : ("-" : Text).isPrintable = true := isPrintable_of_isBasic (by decide)
    rw [ofInt, isPrintable_append, hminus, isPrintable_ofNat, Bool.and_self]

theorem isPrintable_ofHex (width n : Nat) : (ofHex width n).isPrintable = true := by
  induction width generalizing n with
  | zero => rfl
  | succ width ih =>
    have hdigit := CodePoint.isPrintable_ofHexDigit (Nat.mod_lt n (by decide : 0 < 16))
    rw [ofHex, isPrintable_append, ih, Bool.true_and, isPrintable_iff]
    exact List.forall_mem_singleton.mpr hdigit

theorem isPrintable_quoteMark (t : Text) : t.quoteMark.isPrintable = true := by
  unfold quoteMark
  split <;> exact CodePoint.isPrintable_of_isBasic (by decide)

theorem isPrintable_quotedCode {quote : CodePoint} (h : quote.isPrintable = true) (c : CodePoint) :
    (quotedCode quote c).isPrintable = true := by
  have hbackslash : (CodePoint.ofChar '\\').isPrintable = true :=
    CodePoint.isPrintable_of_isBasic (by decide)
  have hescaped : ∀ letter ∈ (["\\x", "\\u", "\\U"] : List String), ∀ width : Nat,
      (letter ++ ofHex width c.val : Text).isPrintable = true := by
    intro letter hletter width
    have hstart : ∀ letter ∈ (["\\x", "\\u", "\\U"] : List String),
        (ofString letter).codes.all CodePoint.isBasic = true := by decide
    rw [isPrintable_append, isPrintable_of_isBasic (hstart letter hletter), isPrintable_ofHex,
      Bool.and_self]
  unfold quotedCode
  split
  · have hc : c.isPrintable = true := by
      rcases ‹c = quote ∨ c = .ofChar '\\'› with rfl | rfl
      · exact h
      · exact hbackslash
    simp only [isPrintable, List.all_cons, hbackslash, hc, List.all_nil, Bool.and_self]
  split
  · exact isPrintable_of_isBasic (by decide)
  split
  · exact isPrintable_of_isBasic (by decide)
  split
  · exact isPrintable_of_isBasic (by decide)
  split
  · simpa [isPrintable] using ‹c.isPrintable = true›
  split
  · exact hescaped "\\x" (by decide) 2
  split
  · exact hescaped "\\u" (by decide) 4
  · exact hescaped "\\U" (by decide) 8

theorem isPrintable_quoted (t : Text) : t.quoted.isPrintable = true := by
  have hmark : (Text.mk [t.quoteMark]).isPrintable = true :=
    isPrintable_iff.mpr (List.forall_mem_singleton.mpr (isPrintable_quoteMark t))
  have hcodes : (concat (t.codes.map (quotedCode t.quoteMark))).isPrintable = true := by
    refine isPrintable_concat (List.forall_mem_map.mpr fun c _ => ?_)
    exact isPrintable_quotedCode (isPrintable_quoteMark t) c
  rw [quoted, isPrintable_append, isPrintable_append, hmark, hcodes]
  rfl

end Text

theorem Note.isPrintable_message (n : Note) : n.message.isPrintable = true := by
  have hwords : ∀ word ∈ (["Accepted Lua 51 header with ", "-byte size_t", "Decoded prototype ",
      "None", " at offset ", " (depth ", "): ", " instructions, ", " constants, ", " nested",
      "Decoded chunk of ", " bytes (", " consumed)"] : List String),
      (Text.ofString word).codes.all CodePoint.isBasic = true := by decide +kernel
  replace hwords := fun word hword => Text.isPrintable_of_isBasic (hwords word hword)
  simp only [List.forall_mem_cons] at hwords
  cases n with
  | header width =>
    simp only [message, Text.isPrintable_append, Text.isPrintable_ofNat, hwords, Bool.and_self]
  | prototype source start depth instructions constants children =>
    cases source <;> simp only [message, Text.isPrintable_append, Text.isPrintable_ofNat,
      Text.isPrintable_ofInt, Text.isPrintable_quoted, hwords, Bool.and_self]
  | chunk total consumed =>
    simp only [message, Text.isPrintable_append, Text.isPrintable_ofNat, Text.isPrintable_ofInt,
      hwords, Bool.and_self]

namespace Log.Record

theorem exists_line_ofNote (n : Note) :
    ∃ line : Text, (ofNote n).traceLine = line ++ "\n" ∧ line.isPrintable = true := by
  have hsource : ∀ source : Source, source.name.isPrintable = true := by
    intro source
    cases source <;> exact Text.isPrintable_of_isBasic (by decide)
  have hlevel : ∀ level : Level, level.name.isPrintable = true := by
    intro level
    cases level <;> exact Text.isPrintable_of_isBasic (by decide)
  have hblank : (" " : Text).isPrintable = true := Text.isPrintable_of_isBasic (by decide)
  refine ⟨_, rfl, ?_⟩
  simp only [Text.isPrintable_append, hsource, hlevel, hblank, Bool.and_true, Bool.true_and]
  exact n.isPrintable_message

theorem encode?_traceLine_ofNote (n : Note) : Utf8.encode? (ofNote n).traceLine =
    some ((ofNote n).traceLine.codes.flatMap Utf8.encode) := by
  obtain ⟨line, hline, hprintable⟩ := exists_line_ofNote n
  have hnone : (line ++ "\n").hasSurrogate = false := by
    rw [Text.hasSurrogate, Text.codes_append, List.any_append, Bool.or_eq_false_iff,
      List.any_eq_false]
    refine ⟨fun c hc => ?_, by decide⟩
    rw [CodePoint.isSurrogate_of_isPrintable (Text.isPrintable_iff.mp hprintable c hc)]
    exact Bool.false_ne_true
  rw [Utf8.encode?, hline, hnone]
  rfl

end Log.Record

end LuaBytecode
