import LuaBytecode.Proofs.Decoder.Extension
import LuaBytecode.Proofs.Decoder.Parallel
import LuaBytecode.Proofs.Scan.Tracking

/-!
# Bytes that are discarded

A decode passes over line numbers, local variables and upvalue names, and over the terminator of
every string that it reads; of a boolean it looks at no more than whether it is zero. The decoder is
written once more as a tracked scan, which gives the roles of the bytes in the order in which a run
passes over them, whether the run succeeds or fails. That the tracked scan is blind says that no
discarded byte has a part in the outcome.
-/

namespace LuaBytecode

namespace Tracked

/-! ### The tracked decoder -/

/-- The payload is kept, and the terminator after it is discarded. -/
def readContent (read : TextReader) (start : Int) (field : Text) (size : Nat) :
    Tracked (Option Text) := do
  if size = 0 then return none
  else
    let payload ← allButLast (List.dropLast <$> Scan.readBytes size (some field))
    return some (← all .kept (Scan.textOf read start field payload))

def readString (width : SizeWidth) (read : TextReader) (field : Text) : Tracked (Option Text) := do
  let start ← all .kept Scan.position
  let size ← all .kept (Scan.readSize width.bytes (some (field ++ " length")))
  readContent read (start + width.bytes) field size

def skipString (width : SizeWidth) (field : Text) : Tracked Unit := do
  let size ← all .kept (Scan.readSize width.bytes (some (field ++ " length")))
  all .discarded (Scan.skip size (some field))

def readValue (width : SizeWidth) (read : TextReader) (start : Int) (tag : Nat) :
    Tracked Constant :=
  match tag with
  | 0 => return .nil
  | 1 => return .boolean (← all .truth ((· != 0) <$> Scan.readU8 (some "boolean constant")))
  | 3 => return .number (← all .kept (Scan.readDouble (some "number constant")))
  | 4 => return .string (← readString width read "string constant")
  | tag => all .kept (Scan.failAt start (.unknownTag tag))

def readConstant (width : SizeWidth) (read : TextReader) : Tracked Constant := do
  let start ← all .kept Scan.position
  let tag ← all .kept (Scan.readU8 (some "constant tag"))
  readValue width read start tag

section

variable (d : Decoder)

def readCount (field : Text) (recordSize : Nat) : Tracked Nat := do
  let start ← all .kept Scan.position
  let count ← all .kept (Scan.readU32 (some field))
  all .kept (d.checkCount start field count recordSize)
  return count

def readRecords {α : Type} (field : Text) (recordSize : Nat) (record : Tracked α) :
    Tracked (List α) := do
  let count ← readCount d field recordSize
  times count record

def readInstructions : Tracked (List Instruction) := do
  let count ← readCount d "instruction count" 4
  let block ← all .kept (Scan.readBytes (count * 4 : Nat) (some "instructions"))
  let words ← all .kept (Scan.liftResult (block.words 4))
  return words.map fun word : Nat => Instruction.ofWord d.options.verboseInstructions word

def skipLines : Tracked Unit := do
  let lines ← readCount d "line info count" 4
  all .discarded (Scan.skip (lines * 4 : Nat) (some "line info"))

def skipLocal : Tracked Unit := do
  skipString d.width "local name"
  all .discarded (Scan.skip Decoder.localSize (some "local pc range"))

def skipDebug : Tracked Unit := do
  skipLines d
  let _ ← readRecords d "local count" (d.width.bytes + Decoder.localSize) (skipLocal d)
  let _ ← readRecords d "upvalue name count" d.width.bytes (skipString d.width "upvalue name")

def readInfo : Tracked FunctionInfo := do
  let source ← readString d.width d.options.stringErrors.read "source name"
  let lineDefined ← all .kept (Scan.readU32 (some "line defined"))
  let lastLineDefined ← all .kept (Scan.readU32 (some "last line defined"))
  let upvalueCount ← all .kept (Scan.readU8 (some "upvalue count"))
  let parameterCount ← all .kept (Scan.readU8 (some "parameter count"))
  let varargFlag ← all .kept (Scan.readU8 (some "vararg flag"))
  let maxStackSize ← all .kept (Scan.readU8 (some "max stack size"))
  let instructions ← readInstructions d
  let constants ← readRecords d "constant count" 1
    (readConstant d.width d.options.stringErrors.read)
  return ⟨source, lineDefined, lastLineDefined, upvalueCount, parameterCount, varargFlag,
    maxStackSize, instructions, constants⟩

def readPrototype : (levels depth : Nat) → Tracked Prototype
  | 0, depth => do
    let start ← all .kept Scan.position
    all .kept (Scan.failAt start (.nestedTooDeep d.options.maxDepth depth))
  | levels + 1, depth => do
    let start ← all .kept Scan.position
    let info ← readInfo d
    let children ← readRecords d "prototype count" (d.width.bytes + Decoder.prototypeSize)
      (readPrototype levels (depth + 1))
    skipDebug d
    all .kept (Scan.takeNote (.prototype info.source start depth info.instructions.length
      info.constants.length children.length))
    return .node info children

end

def readTree (o : Options) : Tracked (Header × Prototype) := do
  let header ← all .kept Scan.readHeader
  let root ← readPrototype ⟨header.sizeWidth, o, .atCount⟩ (o.maxDepth + 1) 0
  return (header, root)

/-! ### It is the decoder -/

theorem scan_all {α : Type} (role : Role) (s : Scan α) : (all role s).scan = s := rfl

theorem scan_pure {α : Type} (a : α) : (Pure.pure a : Tracked α).scan = Pure.pure a := rfl

theorem scan_readContent (read : TextReader) (start : Int) (field : Text) (size : Nat) :
    (readContent read start field size).scan = Scan.readContent read start field size := by
  unfold readContent Scan.readContent
  split
  · rfl
  · simp only [scan_bind, scan_all, scan_pure, allButLast, bind_map_left]

theorem scan_readString (width : SizeWidth) (read : TextReader) (field : Text) :
    (readString width read field).scan = Scan.readString width.bytes read field := by
  simp only [readString, scan_bind, scan_all, scan_readContent]
  rfl

theorem scan_readValue (width : SizeWidth) (read : TextReader) (start : Int) (tag : Nat) :
    (readValue width read start tag).scan = Scan.readValue width.bytes read start tag := by
  unfold readValue
  split
  · rfl
  · simp only [scan_bind, scan_all, scan_pure, bind_map_left]
    rfl
  · rfl
  · simp only [scan_bind, scan_pure, scan_readString]
    rfl
  · simp [Scan.readValue, scan_all, *]

theorem scan_readConstant (width : SizeWidth) (read : TextReader) :
    (readConstant width read).scan = Scan.readConstant width.bytes read := by
  simp only [readConstant, scan_bind, scan_all, scan_readValue]
  rfl

variable {d : Decoder}

theorem scan_readRecords {α : Type} (field : Text) (recordSize : Nat) (record : Tracked α) :
    (readRecords d field recordSize record).scan =
      d.readRecords field recordSize record.scan := by
  simp only [readRecords, scan_bind, scan_times]
  rfl

theorem scan_readInfo : (readInfo d).scan = d.readInfo := by
  simp only [readInfo, scan_bind, scan_readRecords, scan_readConstant, scan_readString]
  rfl

theorem scan_skipDebug : (skipDebug d).scan = d.skipDebug := by
  simp only [skipDebug, scan_bind, scan_readRecords]
  rfl

theorem scan_readPrototype (levels depth : Nat) :
    (readPrototype d levels depth).scan = d.readPrototype levels depth := by
  induction levels generalizing depth with
  | zero => rfl
  | succ levels ih =>
    simp only [readPrototype, scan_bind, scan_readInfo, scan_readRecords, scan_skipDebug, ih]
    rfl

/-- The scan of the tracked decoder is the decoder. -/
theorem scan_readTree (o : Options) : (readTree o).scan = LuaBytecode.readTree o := by
  simp only [readTree, scan_bind, scan_readPrototype]
  rfl

/-! ### It is blind -/

theorem blind_textOf (read : TextReader) (start : Int) (field : Text) (payload : Bytes) :
    (all .kept (Scan.textOf read start field payload)).Blind := by
  unfold Scan.textOf
  split
  · exact blind_pure _
  · exact blind_fail _
  · exact blind_fail _

theorem blind_readContent (read : TextReader) (start : Int) (field : Text) (size : Nat) :
    (readContent read start field size).Blind := by
  unfold readContent
  split
  · exact blind_pure none
  · apply (blind_allButLast (Scan.takes_readBytes size (some field))).bind
    intro payload
    apply (blind_textOf read start field payload).bind
    intro text
    exact blind_pure (some text)

theorem blind_readString (width : SizeWidth) (read : TextReader) (field : Text) :
    (readString width read field).Blind := by
  apply (blind_position .kept).bind
  intro start
  apply (blind_readSize width _).bind
  intro size
  exact blind_readContent read _ field size

theorem blind_skipString (width : SizeWidth) (field : Text) : (skipString width field).Blind := by
  apply (blind_readSize width _).bind
  intro size
  exact blind_skip size _

theorem blind_readValue (width : SizeWidth) (read : TextReader) (start : Int) (tag : Nat) :
    (readValue width read start tag).Blind := by
  unfold readValue
  split
  · exact blind_pure _
  · apply (blind_truth (Scan.takes_readU8 (some "boolean constant"))).bind
    intro value
    exact blind_pure _
  · apply (blind_kept (Scan.takes_readDouble _)).bind
    intro x
    exact blind_pure _
  · apply (blind_readString width read _).bind
    intro text
    exact blind_pure _
  · exact blind_fail _

theorem blind_readConstant (width : SizeWidth) (read : TextReader) :
    (readConstant width read).Blind := by
  apply (blind_position .kept).bind
  intro start
  apply (blind_kept (Scan.takes_readU8 _)).bind
  intro tag
  exact blind_readValue width read start tag

section

variable (d)

/-- A count is refused for the number of bytes that are left, whatever they are. -/
theorem blind_checkCount (start : Int) (field : Text) (count recordSize : Nat) :
    (all .kept (d.checkCount start field count recordSize)).Blind := by
  intro before after
  apply BlindAt.kept
  simp only [Scan.Accepts, Decoder.checkCount_append]
  by_cases hguard : d.counts = .atCount ∧ after.length < count * recordSize
  · rw [if_pos hguard]
    exact .inr ⟨_, _, _, rfl, fun before' _ => by rw [if_pos hguard]⟩
  · rw [if_neg hguard]
    refine .inl ⟨(), [], after, [], rfl, by rw [List.append_nil],
      fun before' rest' hbefore hrest => ?_⟩
    rw [List.nil_append, hrest, if_neg hguard, List.append_nil, hbefore]
    exact ⟨rfl, rfl⟩

theorem blind_readCount (field : Text) (recordSize : Nat) :
    (readCount d field recordSize).Blind := by
  apply (blind_position .kept).bind
  intro start
  apply (blind_kept (Scan.takes_readU32 _)).bind
  intro count
  apply (blind_checkCount d start field count recordSize).bind
  intro _
  exact blind_pure count

variable {d}

theorem Blind.records {α : Type} {record : Tracked α} (h : record.Blind) (field : Text)
    (recordSize : Nat) : (readRecords d field recordSize record).Blind := by
  apply (blind_readCount d field recordSize).bind
  intro count
  exact h.times count

variable (d)

theorem blind_readInstructions : (readInstructions d).Blind := by
  apply (blind_readCount d _ 4).bind
  intro count
  apply (blind_kept (Scan.takes_readBytes (count * 4) _)).bind
  intro block
  have hwords : (all .kept (Scan.liftResult (Bytes.words block 4))).Blind := by
    cases Bytes.words block 4 with
    | ok words => exact blind_pure words
    | error f => exact blind_fail f
  apply hwords.bind
  intro words
  exact blind_pure _

theorem blind_skipLocal : (skipLocal d).Blind := by
  apply (blind_skipString d.width _).bind
  intro _
  exact blind_skip Decoder.localSize _

theorem blind_skipDebug : (skipDebug d).Blind := by
  have hlines : (skipLines d).Blind := by
    apply (blind_readCount d _ 4).bind
    intro lines
    exact blind_skip (lines * 4) _
  apply hlines.bind
  intro _
  apply ((blind_skipLocal d).records _ _).bind
  intro _
  apply ((blind_skipString d.width _).records _ _).bind
  intro _
  exact blind_pure ()

theorem blind_readInfo : (readInfo d).Blind := by
  apply (blind_readString d.width _ _).bind
  intro source
  apply (blind_kept (Scan.takes_readU32 _)).bind
  intro lineDefined
  apply (blind_kept (Scan.takes_readU32 _)).bind
  intro lastLineDefined
  apply (blind_kept (Scan.takes_readU8 _)).bind
  intro upvalueCount
  apply (blind_kept (Scan.takes_readU8 _)).bind
  intro parameterCount
  apply (blind_kept (Scan.takes_readU8 _)).bind
  intro varargFlag
  apply (blind_kept (Scan.takes_readU8 _)).bind
  intro maxStackSize
  apply (blind_readInstructions d).bind
  intro instructions
  apply ((blind_readConstant d.width _).records _ _).bind
  intro constants
  exact blind_pure _

theorem blind_readPrototype (levels depth : Nat) : (readPrototype d levels depth).Blind := by
  induction levels generalizing depth with
  | zero =>
    apply (blind_position .kept).bind
    intro start
    exact blind_fail _
  | succ levels ih =>
    apply (blind_position .kept).bind
    intro start
    apply (blind_readInfo d).bind
    intro info
    apply ((ih (depth + 1)).records _ _).bind
    intro children
    apply (blind_skipDebug d).bind
    intro _
    apply (blind_takeNote _).bind
    intro _
    exact blind_pure _

end

/-- The header is all kept; nothing lies before it. -/
theorem blindAt_readHeader (b : Bytes) : (all .kept Scan.readHeader).BlindAt [] b := by
  apply BlindAt.kept
  rcases hrun : Scan.readHeader ([] ++ b) 0 with ⟨f | header, offset, notes⟩
  · refine .inr ⟨f, offset, notes, rfl, fun before' hbefore => ?_⟩
    obtain rfl : before' = [] := List.length_eq_zero_iff.mp hbefore
    exact congrArg Scanned.result hrun
  · have haccepts : Scan.readHeader.Accepts ([] ++ b) 0 header offset :=
      ⟨congrArg Scanned.result hrun, congrArg Scanned.offset hrun⟩
    obtain ⟨word, rest, rfl, rfl, hword⟩ :=
      (Scan.recognizes_readHeader [] b header offset).mp haccepts
    refine .inl ⟨header, word, rest, notes, rfl, rfl, fun before' rest' hbefore _ => ?_⟩
    obtain rfl : before' = [] := List.length_eq_zero_iff.mp hbefore
    exact (Scan.recognizes_readHeader [] _ header _).mpr ⟨word, rest', rfl, rfl, hword⟩

theorem blindAt_readTree (o : Options) (b : Bytes) : (readTree o).BlindAt [] b := by
  apply (blindAt_readHeader b).bind
  intro header
  apply (blind_readPrototype _ (o.maxDepth + 1) 0).bind
  intro root
  exact blind_pure (header, root)

end Tracked

/-! ### What is left of a malformed name -/

namespace Decoder

open Scan

/-- The comparison of a decoder with itself that shows which strings may be malformed. -/
def textFaults : Comparison where
  Matches f _ := ∀ e, f = .decode e → e.kind = .invalidString → ∃ field ∈ textFields,
    e.field = some field
  Early _ := False
  matches_self := by
    rintro e hkind e' ⟨⟩ hinvalid
    exact absurd hinvalid hkind

theorem comparable_textFaults (w : SizeWidth) (o : Options) :
    Comparable textFaults .identity ⟨w, o, .atCount⟩ ⟨w, o, .atCount⟩ where
  width := rfl
  maxDepth := rfl
  instruction _ := rfl
  text start field hfield payload := by
    unfold textOf
    split
    · exact .pure rfl
    · refine .fail ?_
      rintro e ⟨⟩ -
      exact ⟨field, hfield, rfl⟩
    · refine .fail ?_
      rintro e ⟨⟩
  check := checkCount_parallel_self rfl

end Decoder

theorem field_mem_of_invalidString {o : Options} {b : Bytes} {e : DecodeError}
    (he : (decode o b).1 = .error (.decode e)) (hkind : e.kind = .invalidString) :
    ∃ field ∈ Decoder.textFields, e.field = some field := by
  have halike : Scan.Alike Decoder.textFaults (Chunk.Like .identity) [] b
      (readChunk o .atCount b 0) (readChunk o .atCount b 0) :=
    readChunk_parallel (fun w => Decoder.comparable_textFaults w o) rfl [] b
  rcases halike.exists_error_right he with hearly | ⟨_, _, hmatches⟩
  · exact hearly.elim
  · exact hmatches e rfl hkind

/-! ### Discarded bytes -/

/-- What becomes of the byte at a position in a decode; a byte that is not passed over is kept. -/
def roleAt (o : Options) (b : Bytes) (i : Nat) : Role :=
  ((Tracked.readTree o).roles b 0)[i]?.getD .kept

/-- The outcomes are the same, but for the bytes that a chunk keeps of its own buffer. -/
theorem decode_of_interchangeable {o : Options} {b b' : Bytes}
    (h : Interchangeable ((Tracked.readTree o).roles b 0) b b') :
    (∀ c, (decode o b).1 = .ok c → (decode o b').1 = .ok { c with raw := b' }) ∧
      ∀ f, (decode o b).1 = .error f → (decode o b').1 = .error f := by
  have hblind := Tracked.blindAt_readTree o b
  unfold Tracked.BlindAt at hblind
  rw [Tracked.scan_readTree] at hblind
  simp only [List.nil_append, List.length_nil, Int.ofNat_zero] at hblind
  generalize hrun : readTree o b 0 = r at hblind
  generalize (Tracked.readTree o).roles b 0 = roles at hblind h
  cases hblind with
  | @ok tree word rest notes hafter hroles hsame =>
    obtain ⟨header, root⟩ := tree
    subst hafter
    have hlength : (word ++ rest).length = b'.length := h.length_eq.symm
    rw [← List.append_nil roles] at h
    obtain ⟨word', rest', rfl, hword, hrest⟩ := h.exists_append hroles
    obtain rfl : rest = rest' := hrest
    have hfirst : (readTree o).Accepts (word ++ rest) 0 (header, root) word.length :=
      ⟨congrArg Scanned.result hrun, congrArg Scanned.offset hrun⟩
    have hsecond : (readTree o).Accepts (word' ++ rest) 0 (header, root) word'.length := by
      rw [hword.length_eq]
      exact hsame [] word' rest rfl hword rfl
    have hdecode : (decode o (word ++ rest)).1 = _ := (readChunk_of_readTree_accepts hfirst).1
    have hdecode' : (decode o (word' ++ rest)).1 = _ := (readChunk_of_readTree_accepts hsecond).1
    rw [← hlength, hword.length_eq] at hdecode'
    rw [hdecode, hdecode']
    by_cases hallowed : rest = [] ∨ o.allowTrailingData = true
    · rw [if_pos hallowed, if_pos hallowed]
      refine ⟨?_, nofun⟩
      intro c hc
      cases hc
      rfl
    · rw [if_neg hallowed, if_neg hallowed]
      exact ⟨nofun, fun _ hf => hf⟩
  | @error f offset notes hsame =>
    have hfirst := decode_of_readTree_eq_error (congrArg Scanned.result hrun)
    have hsecond := decode_of_readTree_eq_error (hsame [] b' rfl h)
    constructor
    · intro c hc
      cases hfirst.symm.trans hc
    · intro g hg
      cases hfirst.symm.trans hg
      exact hsecond

/-- Discarded bytes have no part in the outcome of a decode, and of a boolean it only counts whether
it is zero: a buffer that differs in no more decodes to the same header and tree, or fails with the
same fault. The policy for malformed strings makes no difference to this, and none of them refuses a
name that is passed over. -/
theorem decode_of_allows (o : Options) {b b' : Bytes} (hlength : b'.length = b.length)
    (hallows : ∀ (i : Nat) (x y : UInt8), b[i]? = some x → b'[i]? = some y →
      (roleAt o b i).Allows x y) :
    (Tracked.readTree o).scan = readTree o ∧
    (∀ c, (decode o b).1 = .ok c → (decode o b').1 = .ok { c with raw := b' }) ∧
    (∀ f, (decode o b).1 = .error f → (decode o b').1 = .error f) ∧
    ∀ e, (decode o b).1 = .error (.decode e) → e.kind = .invalidString →
      ∃ field ∈ Decoder.textFields, e.field = some field := by
  have hsame := decode_of_interchangeable (.of_allows hlength hallows)
  exact ⟨Tracked.scan_readTree o, hsame.1, hsame.2, fun e => field_mem_of_invalidString⟩

/-- A function with a boolean, which is true, and with a line, a local variable and an upvalue whose
names are not read. -/
def debugSample (line : UInt32) (terminator truth name : UInt8) : StoredChunk where
  width := .four
  root := .node
    ⟨.present [0x61] terminator, 0, 0, 1, 0, 0, 2, [0x0080001E],
      [.boolean truth, .string (.present [0x62] terminator)]⟩ []
    ⟨[line], [⟨.present [name] terminator, line, line⟩], [.present [name] terminator]⟩
  trailing := []

def debugTree : Prototype :=
  .node
    ⟨some "a", 0, 0, 1, 0, 0, 2, [⟨0x0080001E, none⟩], [.boolean true, .string (some "b")]⟩ []

def namedSample : Bytes := (debugSample 7 0x00 0x01 0x78).bytes

/-- The sample with other bytes wherever they are discarded; the names are malformed. -/
def renamedSample : Bytes := (debugSample 9 0x80 0xFF 0xC0).bytes

theorem decode_renamedSample :
    (List.range 91).filter (fun i => roleAt { stringErrors := .strict } namedSample i ≠ .kept) =
        [17, 43, 50, 59, 60, 61, 62, 71, 72, 73, 74, 75, 76, 77, 78, 79, 80, 89, 90] ∧
      roleAt { stringErrors := .strict } namedSample 43 = .truth ∧
      (decode { stringErrors := .strict } renamedSample).1 =
        .ok ⟨⟨.four⟩, debugTree, renamedSample⟩ ∧
      (decode { stringErrors := .strict } (renamedSample.take 84)).1 =
        .error (.decode ⟨.shortRead "integer" (some "upvalue name count") 4 3, 81⟩) := by
  have hdecode : (decode { stringErrors := .strict } namedSample).1 =
      .ok ⟨⟨.four⟩, debugTree, namedSample⟩ := by decide +kernel
  have hshort : (decode { stringErrors := .strict } (namedSample.take 84)).1 =
      .error (.decode ⟨.shortRead "integer" (some "upvalue name count") 4 3, 81⟩) := by
    decide +kernel
  have hwhole : Interchangeable ((Tracked.readTree { stringErrors := .strict }).roles namedSample 0)
      namedSample renamedSample := by decide +kernel
  have hpart : Interchangeable
      ((Tracked.readTree { stringErrors := .strict }).roles (namedSample.take 84) 0)
      (namedSample.take 84) (renamedSample.take 84) := by decide +kernel
  refine ⟨by decide +kernel, by decide +kernel, ?_, ?_⟩
  · exact (decode_of_allows _ hwhole.length_eq fun _ _ _ => hwhole.allows).2.1 _ hdecode
  · exact (decode_of_allows _ hpart.length_eq fun _ _ _ => hpart.allows).2.2.1 _ hshort

end LuaBytecode
