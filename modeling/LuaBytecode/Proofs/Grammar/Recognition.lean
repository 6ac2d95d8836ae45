import LuaBytecode.Proofs.Grammar.Basic
import LuaBytecode.Proofs.Scan.Words
import Mathlib.Data.List.Basic

/-!
# What a decode accepts

Each scan of the decoder recognizes the format of what it reads. The counts are the point of care: a
count is refused if its records cannot fit in what is left, and that is no loss only because every
record has at least the size it is taken to have. Whether counts are refused early or not therefore
makes no difference to what is accepted.
-/

namespace LuaBytecode

namespace Scan

/-! ### Strings and constants -/

theorem recognizes_textOf (read : TextReader) (start : Int) (field : Text) (payload : Bytes) :
    (textOf read start field payload).Recognizes fun word text =>
      word = [] ∧ (read payload).toOption = some text := by
  rw [textOf]
  cases read payload with
  | ok text =>
    refine (recognizes_pure text).congr fun word a => and_congr_right' ?_
    simp [Except.toOption, eq_comm]
  | error f =>
    cases f <;> exact (recognizes_fail _).congr fun word a => by simp [Except.toOption]

theorem recognizes_readContent (read : TextReader) (start : Int) (field : Text) (size : Nat) :
    (readContent read start field size).Recognizes fun word text =>
      ∃ s : StoredString, s.content.length = size ∧ s.text? read = some text ∧
        word = s.content := by
  by_cases hsize : size = 0
  · subst hsize
    refine (recognizes_pure none).congr fun word text => ⟨?_, ?_⟩
    · intro h
      obtain ⟨rfl, rfl⟩ := h
      exact ⟨.absent, rfl, rfl, rfl⟩
    · rintro ⟨_ | ⟨payload, terminator⟩, hlength, htext, rfl⟩
      · exact ⟨rfl, (Option.some.inj htext).symm⟩
      · simp [StoredString.content] at hlength
  · rw [readContent, if_neg hsize]
    have hread := (recognizes_readBytes size (some field)).bind fun content =>
      (recognizes_textOf read start field content.dropLast).map some
    refine hread.congr fun word text => ⟨?_, ?_⟩
    · intro h
      obtain ⟨_, content, _, ⟨hlength, rfl⟩, ⟨t, ⟨rfl, ht⟩, rfl⟩, rfl⟩ := h
      have hne : content ≠ [] := by
        rintro rfl
        exact hsize hlength.symm
      refine ⟨.present content.dropLast (content.getLast hne), ?_, ?_, ?_⟩
      · rw [StoredString.content, List.dropLast_concat_getLast, hlength]
      · rw [StoredString.text?, ht]
        rfl
      · rw [StoredString.content, List.dropLast_concat_getLast]
        simp
    · rintro ⟨_ | ⟨payload, terminator⟩, hlength, htext, rfl⟩
      · exact absurd hlength.symm hsize
      · obtain ⟨t, ht, rfl⟩ := Option.map_eq_some_iff.mp htext
        refine ⟨payload ++ [terminator], _, [], ⟨hlength, rfl⟩, ⟨t, ⟨rfl, ?_⟩, rfl⟩,
          (List.append_nil _).symm⟩
        rw [List.dropLast_concat, ht]

theorem recognizes_readString (w : SizeWidth) (read : TextReader) (field : Text) :
    (readString w.bytes read field).Recognizes (StoredString.format w read).language := by
  refine stationary_position.recognizes_bind fun start => ?_
  refine ((recognizes_readSize w _).bind fun size =>
    recognizes_readContent read (start + w.bytes) field size).congr fun word text => ⟨?_, ?_⟩
  · intro h
    obtain ⟨_, _, _, ⟨size, hfits, hsize, rfl⟩, ⟨s, rfl, htext, rfl⟩, rfl⟩ := h
    cases hsize
    exact ⟨s, hfits, htext, rfl⟩
  · intro h
    obtain ⟨s, hfits, htext, rfl⟩ := h
    exact ⟨_, _, _, ⟨s.content.length, hfits, rfl, rfl⟩, ⟨s, rfl, htext, rfl⟩, rfl⟩

theorem recognizes_skipString (w : SizeWidth) (read : TextReader) (field : Text) :
    (skipString w.bytes field).Recognizes (StoredString.format w read).passed.language := by
  refine ((recognizes_readSize w _).bind fun size =>
    recognizes_skip size (some field)).congr fun word _ => ⟨?_, ?_⟩
  · intro h
    obtain ⟨_, _, content, ⟨size, hfits, hsize, rfl⟩, rfl, rfl⟩ := h
    cases hsize
    rcases List.eq_nil_or_concat content with rfl | ⟨payload, terminator, rfl⟩
    · exact ⟨.absent, hfits, rfl, rfl⟩
    · rw [List.concat_eq_append] at hfits ⊢
      exact ⟨.present payload terminator, hfits, rfl, rfl⟩
  · intro h
    obtain ⟨s, hfits, _, rfl⟩ := h
    exact ⟨_, _, _, ⟨s.content.length, hfits, rfl, rfl⟩, rfl, rfl⟩

theorem toNat_bne_zero (b : UInt8) : (b.toNat != 0) = (b != 0) := by
  rw [Bool.eq_iff_iff, bne_iff_ne, bne_iff_ne, ne_eq, ne_eq, ← UInt8.toNat_inj]
  rfl

theorem recognizes_readValue (w : SizeWidth) (read : TextReader) (start : Int) (tag : Nat) :
    (readValue w.bytes read start tag).Recognizes fun word a =>
      ∃ c : StoredConstant, c.tag.toNat = tag ∧ c.Fits w ∧ c.constant? read = some a ∧
        word = c.content w := by
  unfold readValue
  split
  · refine (recognizes_pure Constant.nil).congr fun word a => ⟨?_, ?_⟩
    · intro h
      obtain ⟨rfl, rfl⟩ := h
      exact ⟨.nil, rfl, trivial, rfl, rfl⟩
    · intro h
      obtain ⟨c, htag, _, ha, rfl⟩ := h
      cases c with
      | nil => exact ⟨rfl, (Option.some.inj ha).symm⟩
      | _ => simp [StoredConstant.tag] at htag
  · refine ((recognizes_readU8 _).map fun n =>
      Constant.boolean (n != 0)).congr fun word a => ⟨?_, ?_⟩
    · intro h
      obtain ⟨_, ⟨b, _, hb, rfl⟩, rfl⟩ := h
      cases hb
      exact ⟨.boolean b, rfl, trivial, by rw [toNat_bne_zero]; rfl, rfl⟩
    · intro h
      obtain ⟨c, htag, _, ha, rfl⟩ := h
      cases c with
      | boolean b =>
        cases ha
        exact ⟨_, ⟨b, trivial, rfl, rfl⟩, by rw [toNat_bne_zero]⟩
      | _ => simp [StoredConstant.tag] at htag
  · refine ((recognizes_readDouble _).map Constant.number).congr fun word a => ⟨?_, ?_⟩
    · intro h
      obtain ⟨x, ⟨_, _, hx, rfl⟩, rfl⟩ := h
      cases hx
      exact ⟨.number x, rfl, trivial, rfl, rfl⟩
    · intro h
      obtain ⟨c, htag, _, ha, rfl⟩ := h
      cases c with
      | number x =>
        cases ha
        exact ⟨_, ⟨x, trivial, rfl, rfl⟩, rfl⟩
      | _ => simp [StoredConstant.tag] at htag
  · refine ((recognizes_readString w read _).map Constant.string).congr fun word a => ⟨?_, ?_⟩
    · intro h
      obtain ⟨text, ⟨s, hfits, htext, rfl⟩, rfl⟩ := h
      exact ⟨.string s, rfl, hfits, Option.map_eq_some_iff.mpr ⟨text, htext, rfl⟩, rfl⟩
    · intro h
      obtain ⟨c, htag, hfits, ha, rfl⟩ := h
      cases c with
      | string s =>
        obtain ⟨text, htext, rfl⟩ := Option.map_eq_some_iff.mp ha
        exact ⟨text, ⟨s, hfits, htext, rfl⟩, rfl⟩
      | _ => simp [StoredConstant.tag] at htag
  · next h0 h1 h3 h4 =>
    refine (recognizes_fail _).congr fun word a => ⟨False.elim, ?_⟩
    intro h
    obtain ⟨c, htag, _, _, _⟩ := h
    cases c with
    | nil => exact h0 htag.symm
    | boolean b => exact h1 htag.symm
    | number x => exact h3 htag.symm
    | string s => exact h4 htag.symm

theorem recognizes_readConstant (w : SizeWidth) (read : TextReader) :
    (readConstant w.bytes read).Recognizes (StoredConstant.format w read).language := by
  refine stationary_position.recognizes_bind fun start => ?_
  refine ((recognizes_readU8 _).bind fun tag =>
    recognizes_readValue w read start tag).congr fun word a => ⟨?_, ?_⟩
  · intro h
    obtain ⟨_, _, _, ⟨b, _, hb, rfl⟩, ⟨c, htag, hfits, ha, rfl⟩, rfl⟩ := h
    cases hb
    have hbyte : b = c.tag := UInt8.toNat_inj.mp htag.symm
    exact ⟨c, hfits, ha, hbyte ▸ rfl⟩
  · intro h
    obtain ⟨c, hfits, ha, rfl⟩ := h
    exact ⟨_, _, _, ⟨c.tag, trivial, rfl, rfl⟩, ⟨c, rfl, hfits, ha, rfl⟩, rfl⟩

/-! ### The header -/

theorem recognizes_readHeaderByte (field : Header.Field) :
    (readHeaderByte field).Recognizes (Format.headerByte field).language := by
  refine stationary_position.recognizes_bind fun start => ?_
  have hcheck : ∀ found : Nat, (if found ∈ field.accepted then Pure.pure found
      else failAt start (.badHeaderByte field found) : Scan Nat).Recognizes
      fun text n => text = [] ∧ found ∈ field.accepted ∧ n = found := by
    intro found
    by_cases haccepted : found ∈ field.accepted
    · rw [if_pos haccepted]
      exact (recognizes_pure found).congr fun text n => and_congr_right' (by simp [haccepted])
    · rw [if_neg haccepted]
      exact (recognizes_fail _).congr fun text n => by simp [haccepted]
  refine ((recognizes_readU8 _).bind hcheck).congr fun text n => Format.bind_byte_iff.trans ⟨?_, ?_⟩
  · intro h
    obtain ⟨b, _, rfl, rfl, haccepted, rfl⟩ := h
    exact ⟨b, haccepted, rfl, rfl⟩
  · intro h
    obtain ⟨b, haccepted, hn, rfl⟩ := h
    cases hn
    exact ⟨b, [], rfl, rfl, haccepted, rfl⟩

theorem recognizes_readDialect :
    readDialect.Recognizes fun text w =>
      text = [0x51, 0x00, 0x01, 0x04, UInt8.ofNat w.bytes, 0x04, 0x08, 0x00] := by
  have hread := (recognizes_readHeaderByte .version).bind
    fun _ => (recognizes_readHeaderByte .format).bind
    fun _ => (recognizes_readHeaderByte .endianness).bind
    fun _ => (recognizes_readHeaderByte .intSize).bind
    fun _ => (recognizes_readHeaderByte .sizeWidth).bind
    fun width => (recognizes_readHeaderByte .instructionSize).bind
    fun _ => (recognizes_readHeaderByte .numberSize).bind
    fun _ => (recognizes_readHeaderByte .integralFlag).bind
    fun _ => recognizes_pure (if width = 4 then SizeWidth.four else SizeWidth.eight)
  rw [readDialect]
  refine hread.congr fun text w => ?_
  simp only [Format.bind_headerByte_iff .version 0x51 rfl, Format.bind_headerByte_iff .format 0 rfl,
    Format.bind_headerByte_iff .endianness 1 rfl, Format.bind_headerByte_iff .intSize 4 rfl,
    Format.bind_headerByte_iff .instructionSize 4 rfl, Format.bind_headerByte_iff .numberSize 8 rfl,
    Format.bind_headerByte_iff .integralFlag 0 rfl, Format.bind_iff]
  constructor
  · intro h
    obtain ⟨_, rfl, _, rfl, _, rfl, _, rfl, b, _, _, rfl, hb, hvalue, h⟩ := h
    obtain ⟨_, rfl, _, rfl, _, rfl, rfl, rfl⟩ := h
    cases hvalue
    have hb : b.toNat = 4 ∨ b.toNat = 8 := by
      simpa [Format.headerByte, Header.Field.accepted] using hb
    rcases hb with hb | hb
    · rw [(UInt8.toNat_inj.mp hb : b = 4)]
      rfl
    · rw [(UInt8.toNat_inj.mp hb : b = 8)]
      rfl
  · rintro rfl
    have haccepted : (Format.headerByte .sizeWidth).Fits (UInt8.ofNat w.bytes) := by
      cases w <;> simp [Format.headerByte, Header.Field.accepted, SizeWidth.bytes]
    have hvalue : (Format.headerByte .sizeWidth).value? (UInt8.ofNat w.bytes) = some w.bytes := by
      cases w <;> rfl
    have hselected : w = if w.bytes = 4 then SizeWidth.four else SizeWidth.eight := by
      cases w <;> rfl
    exact ⟨_, rfl, _, rfl, _, rfl, _, rfl, UInt8.ofNat w.bytes, w.bytes, _, rfl, haccepted, hvalue,
      _, rfl, _, rfl, _, rfl, rfl, hselected⟩

theorem recognizes_readHeader :
    readHeader.Recognizes fun text header => text = StoredChunk.headerBytes header.sizeWidth := by
  refine stationary_position.recognizes_bind fun start => ?_
  have hpassed := (recognizes_skip 4 (some "signature")).bind
    fun _ => recognizes_readDialect.bind
    fun w => (stationary_takeNote (.header w)).recognizes_bind
    fun _ => recognizes_pure (Header.mk w)
  refine (recognizes_peek_bind Header.signature hpassed ?_ ?_).congr fun text header => ⟨?_, ?_⟩
  · intro _ header h
    obtain ⟨front, _, _, hlength, _, rfl⟩ := h
    rw [List.length_append, hlength]
    exact Nat.le_add_right 4 _
  · intro found hfound
    rw [if_pos hfound]
    exact recognizes_fail _
  · intro h
    obtain ⟨⟨others, hlead⟩, front, _, _, hlength, ⟨_, w, _, rfl, ⟨rfl, rfl⟩, rfl⟩, rfl⟩ := h
    obtain ⟨rfl, _⟩ := List.append_inj hlead hlength.symm
    rw [List.append_nil]
    rfl
  · rintro rfl
    exact ⟨List.prefix_append _ _, Header.signature, (), _, rfl,
      ⟨_, header.sizeWidth, [], rfl, ⟨rfl, rfl⟩, rfl⟩, by rw [List.append_nil]; rfl⟩

end Scan

namespace Decoder

open Scan

variable {α β τ : Type}

/-! ### Counts and records -/

theorem checkCount_append (d : Decoder) (start : Int) (field : Text) (count recordSize : Nat)
    (before after : Bytes) :
    d.checkCount start field count recordSize (before ++ after) before.length =
      if d.counts = .atCount ∧ after.length < count * recordSize then
        ⟨.error (.decode ⟨.shortRecords field count (count * recordSize) after.length, start⟩),
          before.length, []⟩
      else ⟨.ok (), before.length, []⟩ := by
  have hremaining : remaining (before ++ after) before.length =
      ⟨.ok after.length, before.length, []⟩ := by
    have hleft : ((before ++ after).length : Int) - before.length = after.length := by
      rw [List.length_append]
      omega
    rw [← hleft]
    rfl
  refine (bind_of_ok hremaining _).trans ?_
  by_cases hguard : d.counts = .atCount ∧ after.length < count * recordSize
  · rw [if_pos hguard, if_pos ⟨hguard.1, Int.ofNat_lt.mpr hguard.2⟩]
    rfl
  · rw [if_neg hguard, if_neg fun h => hguard ⟨h.1, Int.ofNat_lt.mp h.2⟩]
    rfl

theorem readCount_accepts (d : Decoder) (field : Text) {count recordSize : Nat}
    {before rest : Bytes} (hcount : count < 2 ^ 32) (hrest : count * recordSize ≤ rest.length) :
    (d.readCount field recordSize).Accepts (before ++ (Bytes.ofLittleEndian 4 count ++ rest))
      before.length count (before ++ Bytes.ofLittleEndian 4 count).length := by
  have hposition : position.Accepts (before ++ (Bytes.ofLittleEndian 4 count ++ rest))
      before.length before.length before.length := ⟨rfl, rfl⟩
  have hread : (readU32 (some field)).Accepts (before ++ (Bytes.ofLittleEndian 4 count ++ rest))
      before.length count (before ++ Bytes.ofLittleEndian 4 count).length :=
    (recognizes_readCount (some field) _ _ _ _).mpr
      ⟨_, rest, rfl, rfl, count, hcount, rfl, rfl⟩
  have hcheck : (d.checkCount before.length field count recordSize).Accepts
      (before ++ (Bytes.ofLittleEndian 4 count ++ rest))
      (before ++ Bytes.ofLittleEndian 4 count).length ()
      (before ++ Bytes.ofLittleEndian 4 count).length := by
    rw [Accepts, ← List.append_assoc, checkCount_append, if_neg (by omega)]
    exact ⟨rfl, rfl⟩
  exact accepts_bind_iff.mpr ⟨_, _, hposition, accepts_bind_iff.mpr ⟨_, _, hread,
    accepts_bind_iff.mpr ⟨_, _, hcheck, rfl, rfl⟩⟩⟩

theorem recognizes_checkCount_bind (d : Decoder) (start : Int) (field : Text)
    {count recordSize : Nat} {k : Unit → Scan α} {L : Language α} (hk : (k ()).Recognizes L)
    (hsize : L.AtLeast (count * recordSize)) :
    (d.checkCount start field count recordSize >>= k).Recognizes L := by
  intro before after a next
  have hcheck := checkCount_append d start field count recordSize before after
  by_cases hguard : d.counts = .atCount ∧ after.length < count * recordSize
  · rw [if_pos hguard] at hcheck
    simp only [Accepts, bind_of_error hcheck]
    constructor
    · intro h
      obtain ⟨hvalue, _⟩ := h
      cases hvalue
    · intro h
      obtain ⟨word, rest, rfl, _, hword⟩ := h
      have hbound := hsize word a hword
      rw [List.length_append] at hguard
      omega
  · rw [if_neg hguard] at hcheck
    rw [← hk before after a next]
    simp only [Accepts, bind_of_ok hcheck]

theorem recognizes_readCount_bind (d : Decoder) (field : Text) {recordSize : Nat}
    {k : Nat → Scan α} {K : Nat → Language α} (hk : ∀ count, (k count).Recognizes (K count))
    (hsize : ∀ count, (K count).AtLeast (count * recordSize)) :
    (d.readCount field recordSize >>= k).Recognizes (Format.count.language.bind K) := by
  simp only [readCount, bind_assoc, pure_bind]
  refine stationary_position.recognizes_bind fun start => ?_
  refine (recognizes_readCount (some field)).bind fun count => ?_
  exact d.recognizes_checkCount_bind start field (hk count) (hsize count)

theorem recognizes_readRecords (d : Decoder) (field : Text) {recordSize : Nat} {record : Scan α}
    {F : Format τ α} (hrecord : record.Recognizes F.language)
    (hsize : F.language.AtLeast recordSize) :
    (d.readRecords field recordSize record).Recognizes F.counted.language :=
  (d.recognizes_readCount_bind field (fun count => hrecord.times count)
    (Format.repeated_atLeast hsize)).congr (Format.count_bind_repeated F)

/-! ### Blocks of words -/

theorem flatMap_word (ws : List UInt32) : ws.flatMap Format.word.bytes =
    (ws.map UInt32.toNat).flatMap (Bytes.ofLittleEndian 4) :=
  (List.flatMap_map UInt32.toNat (Bytes.ofLittleEndian 4) ws).symm

theorem length_flatMap_word (ws : List UInt32) :
    (ws.flatMap Format.word.bytes).length = ws.length * 4 := by
  rw [flatMap_word, Bytes.length_flatMap_ofLittleEndian, List.length_map]

theorem exists_map_toNat {ns : List Nat} (h : ∀ n ∈ ns, n < 256 ^ 4) :
    ∃ ws : List UInt32, ns = ws.map UInt32.toNat := by
  refine ⟨ns.map UInt32.ofNat, ?_⟩
  rw [List.map_map]
  exact ((List.map_congr_left fun n hn => UInt32.toNat_ofNat_of_lt' (h n hn)).trans
    (List.map_id ns)).symm

theorem exists_words {block : Bytes} {count : Nat} (h : block.length = count * 4) :
    ∃ ws : List UInt32, ws.length = count ∧ block = ws.flatMap Format.word.bytes := by
  obtain ⟨ns, hcount, hns, hblock⟩ := Bytes.exists_numbers h
  obtain ⟨ws, rfl⟩ := exists_map_toNat hns
  exact ⟨ws, (List.length_map _).symm.trans hcount, hblock.trans (flatMap_word ws).symm⟩

theorem words_flatMap_word (ws : List UInt32) :
    Bytes.words (ws.flatMap Format.word.bytes) 4 = .ok (ws.map UInt32.toNat) := by
  rw [flatMap_word]
  exact Bytes.words_flatMap (by decide) (List.forall_mem_map.mpr fun x _ => x.toNat_lt)

/-- The words of a block of instructions are read as one block. -/
theorem recognizes_readBlock_map (annotate : Bool) (count : Nat) (field : Option Text) :
    (do let words ← readBlock count field
        return words.map fun word : Nat => Instruction.ofWord annotate word
      : Scan (List Instruction)).Recognizes
      ((Format.instruction annotate).repeated count).language := by
  refine ((recognizes_readBlock count field).map _).congr fun word is => ?_
  simp only [count_repeated_iff]
  constructor
  · intro h
    obtain ⟨ns, ⟨hcount, hns, rfl⟩, rfl⟩ := h
    obtain ⟨ws, rfl⟩ := exists_map_toNat hns
    refine ⟨ws, ⟨(List.length_map _).symm.trans hcount, fun _ _ => trivial⟩, ?_,
      (flatMap_word ws).symm⟩
    rw [List.map_map]
    exact List.mapM_pure
  · intro h
    obtain ⟨ws, ⟨rfl, _⟩, his, rfl⟩ := h
    have hvalue := List.mapM_pure.symm.trans his
    refine ⟨ws.map UInt32.toNat, ⟨List.length_map _, ?_, flatMap_word ws⟩, ?_⟩
    · exact List.forall_mem_map.mpr fun x _ => x.toNat_lt
    · rw [List.map_map]
      exact (Option.some.inj hvalue).symm

/-- The instructions are read as one block of words after their count. -/
theorem readInstructions_eq (d : Decoder) :
    d.readInstructions = (do
      let count ← d.readCount "instruction count" 4
      let words ← readBlock count (some "instructions")
      return words.map fun word : Nat =>
        Instruction.ofWord d.options.verboseInstructions word) := by
  simp only [readInstructions, readBlock, bind_assoc]

theorem recognizes_readInstructions (d : Decoder) :
    d.readInstructions.Recognizes
      (Format.instruction d.options.verboseInstructions).counted.language := by
  have hword : (Format.instruction d.options.verboseInstructions).language.AtLeast 4 := by
    intro word i hword
    obtain ⟨x, _, _, rfl⟩ := hword
    exact Nat.le_of_eq (Format.length_word_bytes x).symm
  have hsize := Format.repeated_atLeast hword
  rw [readInstructions_eq]
  exact (d.recognizes_readCount_bind "instruction count"
    (fun count => recognizes_readBlock_map _ count _) hsize).congr (Format.count_bind_repeated _)

theorem recognizes_skipLines (d : Decoder) :
    d.skipLines.Recognizes fun text _ =>
      ∃ ws : List UInt32, ws.length < 2 ^ 32 ∧ text = Bytes.counted Format.word.bytes ws := by
  have hskip := fun count : Nat => recognizes_skip (count * 4) (some "line info")
  have hread := d.recognizes_readCount_bind "line info count" hskip fun count text _ h =>
    Nat.le_of_eq h.symm
  refine hread.congr fun text _ => Format.bind_iff.trans ⟨?_, ?_⟩
  · intro hword
    obtain ⟨count, _, _, rfl, hcount, hvalue, hlength⟩ := hword
    cases hvalue
    obtain ⟨ws, rfl, rfl⟩ := exists_words hlength
    exact ⟨ws, hcount, rfl⟩
  · intro hword
    obtain ⟨ws, hcount, rfl⟩ := hword
    exact ⟨ws.length, _, _, rfl, hcount, rfl, length_flatMap_word ws⟩

/-! ### Debug sections -/

theorem recognizes_skipLocal (d : Decoder) :
    d.skipLocal.Recognizes (StoredLocal.format d.width).language := by
  refine ((recognizes_skipString d.width d.options.stringErrors.read _).bind fun _ =>
    recognizes_skip localSize _).congr fun word _ => ⟨?_, ?_⟩
  · intro h
    obtain ⟨_, _, _, ⟨s, hfits, _, rfl⟩, hlength, rfl⟩ := h
    obtain ⟨ws, hcount, rfl⟩ := @exists_words _ 2 hlength
    obtain ⟨start, stop, rfl⟩ := List.length_eq_two.mp hcount
    refine ⟨⟨s, start, stop⟩, hfits, rfl, ?_⟩
    simp [StoredLocal.format, StoredLocal.bytes, StoredString.format, Format.passed]
  · intro h
    obtain ⟨l, hfits, _, rfl⟩ := h
    refine ⟨_, (), _, ⟨l.name, hfits, rfl, rfl⟩, length_flatMap_word [l.start, l.stop], ?_⟩
    simp [StoredLocal.format, StoredLocal.bytes, StoredString.format, Format.passed]

theorem recognizes_skipDebug (d : Decoder) :
    d.skipDebug.Recognizes (StoredDebug.format d.width).language := by
  have hlocals := d.recognizes_readRecords "local count" d.recognizes_skipLocal <| by
    intro _ _ h
    obtain ⟨l, _, _, rfl⟩ := h
    exact l.le_length_bytes d.width
  have hnames := d.recognizes_readRecords "upvalue name count"
    (recognizes_skipString d.width d.options.stringErrors.read "upvalue name") <| by
    intro _ _ h
    obtain ⟨s, _, _, rfl⟩ := h
    exact s.le_length_bytes d.width
  refine (d.recognizes_skipLines.bind fun _ => hlocals.bind fun _ => hnames.bind fun _ =>
    recognizes_pure ()).congr fun word _ => ⟨?_, ?_⟩
  · intro h
    obtain ⟨_, _, _, ⟨lines, hlines, rfl⟩, ⟨_, _, _, ⟨locals, hlocals, _, rfl⟩, ⟨_, _, _, ⟨names,
        hnames, _, rfl⟩, ⟨rfl, _⟩, rfl⟩, rfl⟩, rfl⟩ := h
    refine ⟨⟨lines, locals, names⟩, ⟨hlines, hlocals, hnames⟩, rfl, ?_⟩
    rw [List.append_nil, ← List.append_assoc]
    rfl
  · intro h
    obtain ⟨debug, ⟨hlines, hlocals, hnames⟩, _, rfl⟩ := h
    refine ⟨_, (), _, ⟨debug.lines, hlines, rfl⟩,
      ⟨_, _, _, ⟨debug.locals, hlocals, List.mapM_pure, rfl⟩,
      ⟨_, _, [], ⟨debug.upvalueNames, hnames, List.mapM_pure, rfl⟩, ⟨rfl, rfl⟩, rfl⟩, rfl⟩, ?_⟩
    rw [List.append_nil, ← List.append_assoc]
    rfl

/-! ### Prototypes -/

theorem recognizes_readConstants (d : Decoder) :
    d.readConstants.Recognizes
      (StoredConstant.format d.width d.options.stringErrors.read).counted.language :=
  d.recognizes_readRecords "constant count" (recognizes_readConstant d.width _) <| by
    intro _ _ h
    obtain ⟨c, _, _, rfl⟩ := h
    exact c.le_length_bytes d.width

theorem recognizes_readInfo (d : Decoder) :
    d.readInfo.Recognizes
      (StoredFunction.format d.width d.options.verboseInstructions
        d.options.stringErrors.read).language := by
  have hread := (recognizes_readString d.width d.options.stringErrors.read "source name").bind
    fun source => (recognizes_readU32 (some "line defined")).bind
    fun lineDefined => (recognizes_readU32 (some "last line defined")).bind
    fun lastLineDefined => (recognizes_readU8 (some "upvalue count")).bind
    fun upvalueCount => (recognizes_readU8 (some "parameter count")).bind
    fun parameterCount => (recognizes_readU8 (some "vararg flag")).bind
    fun varargFlag => (recognizes_readU8 (some "max stack size")).bind
    fun maxStackSize => d.recognizes_readInstructions.bind
    fun instructions => d.recognizes_readConstants.map
    fun constants => FunctionInfo.mk source lineDefined lastLineDefined upvalueCount parameterCount
      varargFlag maxStackSize instructions constants
  rw [readInfo]
  refine hread.congr fun text info => Format.bind_iff.trans ?_
  simp only [Format.bind_word_iff, Format.bind_byte_iff]
  constructor
  · intro h
    obtain ⟨s, source, _, rfl, hs, hsource, h⟩ := h
    obtain ⟨lineDefined, _, rfl, lastLineDefined, _, rfl, h⟩ := h
    obtain ⟨upvalueCount, _, rfl, parameterCount, _, rfl, varargFlag, _, rfl, h⟩ := h
    obtain ⟨maxStackSize, _, rfl, hsections⟩ := h
    obtain ⟨is, _, _, rfl, his, hvalue, hconstants⟩ := Format.bind_iff.mp hsections
    obtain ⟨constants, ⟨cs, hcs, hvalues, rfl⟩, rfl⟩ := hconstants
    cases List.mapM_pure.symm.trans hvalue
    refine ⟨⟨s, lineDefined, lastLineDefined, upvalueCount, parameterCount, varargFlag,
      maxStackSize, is, cs⟩, ⟨hs, his.1, hcs⟩, ?_, ?_⟩
    · exact StoredFunction.info?_eq_some_iff.mpr ⟨source, hsource, constants, hvalues, rfl⟩
    · simp [StoredFunction.format, StoredFunction.bytes, StoredString.format, StoredConstant.format,
        Format.counted, Format.instruction]
  · intro h
    obtain ⟨f, ⟨hs, his, hcs⟩, hinfo, rfl⟩ := h
    obtain ⟨source, hsource, constants, hvalues, rfl⟩ := StoredFunction.info?_eq_some_iff.mp hinfo
    let sections := Bytes.counted Format.word.bytes f.instructions ++
      Bytes.counted (StoredConstant.bytes d.width) f.constants
    refine ⟨f.source, source, _, ?_, hs, hsource, f.lineDefined, _, rfl, f.lastLineDefined, _, rfl,
      f.upvalueCount, _, rfl, f.parameterCount, _, rfl, f.varargFlag, _, rfl,
      f.maxStackSize, sections, rfl, ?_⟩
    · simp [sections, StoredFunction.format, StoredFunction.bytes, StoredString.format]
    · exact Format.bind_iff.mpr ⟨f.instructions, _, _, rfl, ⟨his, fun _ _ => trivial⟩,
        List.mapM_pure, constants, ⟨f.constants, hcs, hvalues, rfl⟩, rfl⟩

/-- The induction is on the levels that are left: the children of a prototype have one fewer, which
is what bounds the depth of the terms that are accepted. -/
theorem recognizes_readPrototype (d : Decoder) (levels depth : Nat) :
    (d.readPrototype levels depth).Recognizes
      (StoredPrototype.format d.width d.options.verboseInstructions d.options.stringErrors.read
        levels).language := by
  induction levels generalizing depth with
  | zero =>
    refine (stationary_position.recognizes_bind fun start => recognizes_fail _).congr
      fun text tree => ⟨False.elim, ?_⟩
    intro hword
    obtain ⟨p, ⟨_, hdepth⟩, _, _⟩ := hword
    exact absurd hdepth (Nat.not_lt_zero _)
  | succ levels ih =>
    have hchildren := d.recognizes_readRecords "prototype count" (ih (depth + 1)) <| by
      intro _ _ hword
      obtain ⟨p, _, _, rfl⟩ := hword
      exact p.le_length_bytes d.width
    have hread := fun start : Int => d.recognizes_readInfo.bind fun info =>
      hchildren.bind fun children => d.recognizes_skipDebug.bind fun _ =>
        (stationary_takeNote (.prototype info.source start depth info.instructions.length
          info.constants.length children.length)).recognizes_bind fun _ =>
            recognizes_pure (Prototype.node info children)
    refine stationary_position.recognizes_bind fun start => (hread start).congr fun text tree => ?_
    constructor
    · intro h
      obtain ⟨f, info, _, rfl, hf, hinfo, hnested⟩ := Format.bind_iff.mp h
      obtain ⟨ps, trees, _, rfl, ⟨hcount, hps⟩, htrees, hsections⟩ := Format.bind_iff.mp hnested
      obtain ⟨debug, _, _, rfl, hdebug, _, rfl, rfl⟩ := Format.bind_iff.mp hsections
      refine ⟨.node f ps debug, ⟨⟨hf, ⟨hcount, ?_⟩, hdebug⟩, ?_⟩, ?_, ?_⟩
      · exact (StoredPrototype.fitAll_iff _ ps).mpr fun p hp => (hps p hp).1
      · exact Nat.lt_succ_of_le
          ((StoredPrototype.levels_le_iff ps levels).mpr fun p hp => (hps p hp).2)
      · exact (StoredPrototype.tree?_eq_some_iff (d := debug)).mpr ⟨info, hinfo, trees, htrees, rfl⟩
      · rw [List.append_nil, ← List.append_assoc]
        exact (StoredPrototype.bytes_node d.width f ps debug).symm
    · intro hword
      obtain ⟨⟨f, ps, debug⟩, ⟨⟨hf, ⟨hcount, hfit⟩, hdebug⟩, hdepth⟩, htree, rfl⟩ := hword
      obtain ⟨info, hinfo, trees, htrees, rfl⟩ :=
        (StoredPrototype.tree?_eq_some_iff (d := debug)).mp htree
      have hfits := (StoredPrototype.fitAll_iff _ ps).mp hfit
      have hdepths := (StoredPrototype.levels_le_iff ps levels).mp (Nat.le_of_lt_succ hdepth)
      refine Format.bind_iff.mpr ⟨f, info, _, ?_, hf, hinfo, Format.bind_iff.mpr ⟨ps, trees, _, rfl,
        ⟨hcount, fun p hp => ⟨hfits p hp, hdepths p hp⟩⟩, htrees,
        Format.bind_iff.mpr ⟨debug, (), [], rfl, hdebug, rfl, rfl, rfl⟩⟩⟩
      rw [List.append_nil, ← List.append_assoc]
      exact StoredPrototype.bytes_node d.width f ps debug

end Decoder

open Scan in
theorem finishChunk_append (o : Options) (header : Header) (root : Prototype)
    (before after : Bytes) :
    finishChunk o header root (before ++ after) before.length =
      if after = [] ∨ o.allowTrailingData then
        ⟨.ok ⟨header, root, before ++ after⟩, before.length,
          [.chunk (before ++ after).length before.length]⟩
      else ⟨.error (.decode ⟨.unreadBytes (before ++ after).length, before.length⟩),
        before.length, []⟩ := by
  have hguard : finishChunk o header root (before ++ after) before.length =
      (if !o.allowTrailingData && decide ((before.length : Int) < (before ++ after).length) then
        failAt before.length (.unreadBytes (before ++ after).length)
      else do
        takeNote (.chunk (before ++ after).length before.length)
        return ⟨header, root, before ++ after⟩ : Scan Chunk) (before ++ after) before.length := rfl
  have hunread : (!o.allowTrailingData &&
      decide ((before.length : Int) < (before ++ after).length)) = true ↔
        ¬(after = [] ∨ o.allowTrailingData = true) := by
    have hlength : ((before.length : Int) < (before ++ after).length) ↔ after ≠ [] := by
      rw [List.length_append, ← List.length_pos_iff]
      omega
    rw [Bool.and_eq_true, decide_eq_true_iff, hlength, not_or, Bool.not_eq_true', Bool.not_eq_true]
    exact And.comm
  rw [hguard]
  by_cases hallowed : after = [] ∨ o.allowTrailingData = true
  · have hnone := mt hunread.mp (not_not_intro hallowed)
    rw [if_pos hallowed, if_neg hnone]
    rfl
  · rw [if_neg hallowed, if_pos (hunread.mpr hallowed)]
    rfl

theorem finishChunk_accepts_iff (o : Options) (header : Header) (root : Prototype)
    (before after : Bytes) (c : Chunk) (next : Int) :
    (finishChunk o header root).Accepts (before ++ after) before.length c next ↔
      (after = [] ∨ o.allowTrailingData) ∧ c = ⟨header, root, before ++ after⟩ ∧
        next = before.length := by
  rw [Scan.Accepts, finishChunk_append]
  by_cases hallowed : after = [] ∨ o.allowTrailingData = true
  · rw [if_pos hallowed, Except.ok.injEq]
    exact ⟨fun h => ⟨hallowed, h.1.symm, h.2.symm⟩, fun h => ⟨h.2.1.symm, h.2.2.symm⟩⟩
  · rw [if_neg hallowed]
    constructor
    · intro h
      cases h.1
    · intro h
      exact absurd h.1 hallowed

open Scan in
/-- When counts are refused makes no difference to what is accepted. -/
theorem readChunk_accepts_iff (o : Options) (counts : CountCheck) (b : Bytes) (c : Chunk)
    (next : Int) :
    (readChunk o counts).Accepts b 0 c next ↔
      ∃ s : StoredChunk, s.bytes = b ∧ s.Fits ∧ s.root.depth ≤ o.maxDepth ∧
        (s.trailing = [] ∨ o.allowTrailingData) ∧
        (∃ root, s.root.tree? o.verboseInstructions o.stringErrors.read = some root ∧
          c = ⟨⟨s.width⟩, root, b⟩) ∧
        next = (StoredChunk.headerBytes s.width ++ s.root.bytes s.width).length := by
  have hread := @(recognizes_readHeader).accepts_bind_iff _ _ _ _ (fun header => do
    let root ← Decoder.readPrototype ⟨header.sizeWidth, o, counts⟩ (o.maxDepth + 1) 0
    finishChunk o header root) [] b c next
  refine hread.trans ⟨?_, ?_⟩
  · intro h
    obtain ⟨_, header, others, rfl, rfl, hrest⟩ := h
    rw [(Decoder.recognizes_readPrototype _ _ _).accepts_bind_iff] at hrest
    obtain ⟨_, root, rest, ⟨p, ⟨hfits, hdepth⟩, hroot, rfl⟩, rfl, hfinish⟩ := hrest
    obtain ⟨htrailing, rfl, rfl⟩ := (finishChunk_accepts_iff o header root _ rest c next).mp hfinish
    exact ⟨⟨header.sizeWidth, p, rest⟩, List.append_assoc _ _ _, hfits, Nat.le_of_lt_succ hdepth,
      htrailing, ⟨root, hroot, congrArg (Chunk.mk header root) (List.append_assoc _ _ _)⟩, rfl⟩
  · intro h
    obtain ⟨⟨w, p, rest⟩, rfl, hfits, hdepth, htrailing, ⟨root, hroot, rfl⟩, rfl⟩ := h
    refine ⟨_, ⟨w⟩, p.bytes w ++ rest, rfl, List.append_assoc _ _ _, ?_⟩
    rw [(Decoder.recognizes_readPrototype _ _ _).accepts_bind_iff]
    refine ⟨_, root, rest, ⟨p, ⟨hfits, Nat.lt_succ_of_le hdepth⟩, hroot, rfl⟩, rfl, ?_⟩
    exact (finishChunk_accepts_iff o ⟨w⟩ root _ rest _ _).mpr ⟨htrailing, rfl, rfl⟩

end LuaBytecode
