import LuaBytecode.Proofs.Json.Printing

/-!
# Printed JSON is ASCII

Whatever the strings of a value hold, what is printed of it consists of the characters of numbers,
of escapes and of punctuation.
-/

namespace LuaBytecode

theorem CodePoint.lt_of_isNumeric {c : CodePoint} (h : c.isNumeric = true) : c.val < 0x80 := by
  simp only [isNumeric, isAsciiDigit, Bool.or_eq_true, Bool.and_eq_true, decide_eq_true_eq,
    beq_iff_eq] at h
  rcases h with (((h | rfl) | rfl) | rfl) | rfl
  · omega
  · decide
  · decide
  · decide
  · decide

theorem Text.isAscii_of_isNumeric {t : Text} (h : ∀ c ∈ t.codes, c.isNumeric = true) :
    t.isAscii = true :=
  isAscii_iff.mpr fun c hc => CodePoint.lt_of_isNumeric (h c hc)

theorem Text.isAscii_ofInt (n : Int) : (ofInt n).isAscii = true :=
  isAscii_of_isNumeric (isNumeric_ofInt n)

/-- The text of a double that is not finite is a word. -/
theorem Binary64.toText_of_not_isFinite {x : Binary64} (hx : x.isFinite = false) :
    x.toText =
      if x.isNaN then ("nan" : Text) else if x.isNegative then "-" ++ "inf" else "inf" := by
  have hmagnitude : x.magnitudeText = "inf" := by
    rw [magnitudeText, hx]
    rfl
  rw [toText, hmagnitude]

theorem Binary64.isAscii_toText (x : Binary64) : x.toText.isAscii = true := by
  cases hx : x.isFinite with
  | true => exact Text.isAscii_of_isNumeric (isNumeric_toText hx)
  | false =>
    rw [toText_of_not_isFinite hx]
    split
    · decide
    · split <;> decide

namespace Json

theorem isAscii_escapeUnit (n : Nat) : (escapeUnit n).isAscii = true := by
  rw [escapeUnit, Text.isAscii_append, Text.isAscii_ofHex]
  decide

theorem isAscii_ite {p : Prop} [Decidable p] {s t : Text} (hs : p → s.isAscii = true)
    (ht : ¬p → t.isAscii = true) : (if p then s else t).isAscii = true := by
  split
  · exact hs ‹_›
  · exact ht ‹_›

theorem isAscii_escapeCode (c : CodePoint) : (escapeCode c).isAscii = true := by
  unfold escapeCode
  iterate 7 refine isAscii_ite (fun _ => by decide) fun _ => ?_
  refine isAscii_ite (fun hplain => ?_) fun _ =>
    isAscii_ite (fun _ => isAscii_escapeUnit _) fun _ => ?_
  · rw [Text.isAscii_iff, List.forall_mem_singleton]
    omega
  · rw [Text.isAscii_append, isAscii_escapeUnit, isAscii_escapeUnit]
    rfl

theorem isAscii_quote (t : Text) : (quote t).isAscii = true := by
  have hescapes : (Text.concat (t.codes.map escapeCode)).isAscii = true := by
    refine Text.isAscii_concat ?_
    intro e he
    obtain ⟨c, _, rfl⟩ := List.mem_map.mp he
    exact isAscii_escapeCode c
  rw [quote, Text.isAscii_append, Text.isAscii_append, hescapes]
  decide

theorem isAscii_floatText (x : Binary64) : (floatText x).isAscii = true := by
  unfold floatText
  exact isAscii_ite (fun _ => by decide) fun _ => isAscii_ite (fun _ => x.isAscii_toText) fun _ =>
    isAscii_ite (fun _ => by decide) fun _ => by decide

structure Layout.IsAscii (layout : Layout) : Prop where
  lineBreak : ∀ depth, (layout.lineBreak depth).isAscii = true
  colon : layout.colon.isAscii = true

theorem Layout.isAscii_indented (width : Int) : (indented width).IsAscii where
  lineBreak depth := by
    rw [indented, Text.isAscii_append, Bool.and_eq_true]
    refine ⟨by decide, Text.isAscii_iff.mpr ?_⟩
    intro c hc
    rw [List.eq_of_mem_replicate hc]
    decide
  colon := by
    have hcolon : (": " : Text).isAscii = true := by decide
    exact hcolon

variable {layout : Layout}

def AsciiCodes (cs : List CodePoint) : Prop := ∀ c ∈ cs, c.val < 0x80

theorem asciiCodes_append {t : Text} (ht : t.isAscii = true) {rest : List CodePoint}
    (hrest : AsciiCodes rest) : AsciiCodes (t.codes ++ rest) :=
  List.forall_mem_append.mpr ⟨Text.isAscii_iff.mp ht, hrest⟩

theorem asciiCodes_cons {c : CodePoint} (hc : c.val < 0x80) {rest : List CodePoint}
    (hrest : AsciiCodes rest) : AsciiCodes (c :: rest) :=
  List.forall_mem_cons.mpr ⟨hc, hrest⟩

mutual

theorem asciiCodes_render (hlayout : layout.IsAscii) : (v : Json) → (depth : Nat) →
    {rest : List CodePoint} → AsciiCodes rest → AsciiCodes (render layout depth v rest)
  | .null, _, _, hrest => asciiCodes_append (by decide) hrest
  | .bool b, _, _, hrest => asciiCodes_append (by cases b <;> decide) hrest
  | .int n, _, _, hrest => asciiCodes_append (Text.isAscii_ofInt n) hrest
  | .float x, _, _, hrest => asciiCodes_append (isAscii_floatText x) hrest
  | .string t, _, _, hrest => asciiCodes_append (isAscii_quote t) hrest
  | .array [], _, _, hrest => asciiCodes_append (by decide) hrest
  | .array (item :: items), depth, _, hrest => by
    refine asciiCodes_cons (by decide) (asciiCodes_append (hlayout.lineBreak _) ?_)
    refine asciiCodes_render hlayout item _ (asciiCodes_renderItems hlayout items _ ?_)
    exact asciiCodes_append (hlayout.lineBreak _) (asciiCodes_cons (by decide) hrest)
  | .object [], _, _, hrest => asciiCodes_append (by decide) hrest
  | .object ((name, value) :: members), depth, _, hrest => by
    rw [render_object_cons]
    refine asciiCodes_cons (by decide) (asciiCodes_append (hlayout.lineBreak _) ?_)
    refine asciiCodes_append (isAscii_quote name) (asciiCodes_append hlayout.colon ?_)
    refine asciiCodes_render hlayout value _ (asciiCodes_renderMembers hlayout members _ ?_)
    exact asciiCodes_append (hlayout.lineBreak _) (asciiCodes_cons (by decide) hrest)

theorem asciiCodes_renderItems (hlayout : layout.IsAscii) : (items : List Json) → (depth : Nat) →
    {rest : List CodePoint} → AsciiCodes rest → AsciiCodes (renderItems layout depth items rest)
  | [], _, _, hrest => hrest
  | item :: items, depth, _, hrest => by
    refine asciiCodes_cons (by decide) (asciiCodes_append (hlayout.lineBreak _) ?_)
    exact asciiCodes_render hlayout item _ (asciiCodes_renderItems hlayout items _ hrest)

theorem asciiCodes_renderMembers (hlayout : layout.IsAscii) : (members : List (Text × Json)) →
    (depth : Nat) → {rest : List CodePoint} → AsciiCodes rest →
      AsciiCodes (renderMembers layout depth members rest)
  | [], _, _, hrest => hrest
  | (name, value) :: members, depth, _, hrest => by
    rw [renderMembers_cons]
    refine asciiCodes_cons (by decide) (asciiCodes_append (hlayout.lineBreak _) ?_)
    refine asciiCodes_append (isAscii_quote name) (asciiCodes_append hlayout.colon ?_)
    exact asciiCodes_render hlayout value _ (asciiCodes_renderMembers hlayout members _ hrest)

end

theorem isAscii_print (hlayout : layout.IsAscii) (v : Json) : (print layout v).isAscii = true :=
  Text.isAscii_iff.mpr (asciiCodes_render hlayout v 0 (by simp [AsciiCodes]))

end Json

end LuaBytecode
