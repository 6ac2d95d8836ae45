import LuaBytecode.Proofs.Grammar.Recognition
import LuaBytecode.Proofs.Scan.Simulation

/-!
# Two decoders in one relation

Decoders differ in how they read text, in whether they name operations and in how they read a count.
Where two of them are related in these three places, the relation carries over to all that they
read: the trees they return have the same shape, and differ in texts and instructions only as far as
the relation lets them. The limit of nesting is met nowhere but at the head of a prototype, so it is
left to the induction over prototypes.
-/

namespace LuaBytecode

/-- The texts and the instructions that may stand in each other's place. -/
structure Likeness where
  text : Text → Text → Prop
  instruction : Instruction → Instruction → Prop

namespace Likeness

def identity : Likeness := ⟨Eq, Eq⟩

end Likeness

variable {L : Likeness}

inductive Constant.Like (L : Likeness) : Constant → Constant → Prop
  | nil : Like L .nil .nil
  | boolean (b : Bool) : Like L (.boolean b) (.boolean b)
  | number (x : Binary64) : Like L (.number x) (.number x)
  | string {s t : Option Text} (htext : Option.Rel L.text s t) : Like L (.string s) (.string t)

structure FunctionInfo.Like (L : Likeness) (f g : FunctionInfo) : Prop where
  source : Option.Rel L.text f.source g.source
  lineDefined : f.lineDefined = g.lineDefined
  lastLineDefined : f.lastLineDefined = g.lastLineDefined
  upvalueCount : f.upvalueCount = g.upvalueCount
  parameterCount : f.parameterCount = g.parameterCount
  varargFlag : f.varargFlag = g.varargFlag
  maxStackSize : f.maxStackSize = g.maxStackSize
  instructions : List.Forall₂ L.instruction f.instructions g.instructions
  constants : List.Forall₂ (Constant.Like L) f.constants g.constants

namespace Prototype

mutual

def Like (L : Likeness) : Prototype → Prototype → Prop
  | .node f ps, .node g qs => f.Like L g ∧ LikeAll L ps qs

def LikeAll (L : Likeness) : List Prototype → List Prototype → Prop
  | [], [] => True
  | p :: ps, q :: qs => Like L p q ∧ LikeAll L ps qs
  | _, _ => False

end

theorem LikeAll.of_forall₂ {ps qs : List Prototype} (h : List.Forall₂ (Like L) ps qs) :
    LikeAll L ps qs := by
  induction h with
  | nil => exact trivial
  | cons hhead _ ih => exact ⟨hhead, ih⟩

end Prototype

/-! ### Identical texts and instructions -/

theorem eq_of_optionRel {α : Type} {a b : Option α} (h : Option.Rel Eq a b) : a = b := by
  cases h with
  | some hab => rw [hab]
  | none => rfl

theorem Constant.Like.eq (htext : L.text = Eq) {c d : Constant} (h : c.Like L d) : c = d := by
  cases h with
  | string hst =>
    rw [htext] at hst
    rw [eq_of_optionRel hst]
  | _ => rfl

/-- Where related texts are equal, only the instructions may differ. -/
theorem FunctionInfo.Like.eq_with (htext : L.text = Eq) {f g : FunctionInfo} (h : f.Like L g) :
    f = { g with instructions := f.instructions } := by
  obtain ⟨source, lineDefined, lastLineDefined, upvalueCount, parameterCount, varargFlag,
    maxStackSize, instructions, constants⟩ := f
  obtain ⟨hsource, hline, hlast, hupvalues, hparameters, hvararg, hstack, _, hcs⟩ := h
  have hconstants := List.forall₂_eq_eq_eq ▸ hcs.imp fun _ _ => Constant.Like.eq htext
  rw [htext] at hsource
  cases eq_of_optionRel hsource
  subst hline hlast hupvalues hparameters hvararg hstack hconstants
  rfl

theorem FunctionInfo.Like.eq {f g : FunctionInfo} (h : f.Like .identity g) : f = g := by
  have hinstructions : f.instructions = g.instructions := List.forall₂_eq_eq_eq ▸ h.instructions
  rw [h.eq_with rfl, hinstructions]

namespace Prototype

mutual

theorem Like.eq : {p q : Prototype} → p.Like .identity q → p = q
  | .node f ps, .node g qs, ⟨hinfo, hchildren⟩ => by
    rw [hinfo.eq, LikeAll.eq hchildren]

theorem LikeAll.eq : {ps qs : List Prototype} → LikeAll .identity ps qs → ps = qs
  | [], [], _ => rfl
  | p :: ps, q :: qs, ⟨hhead, htail⟩ => by
    rw [Like.eq hhead, LikeAll.eq htail]

end

end Prototype

/-! ### Strings, constants and the header -/

namespace Scan

/-- What follows the look at the signature, which was `found` at `start`. -/
def readSigned (start : Int) (found : Bytes) : Scan Header := do
  if found ≠ Header.signature then failAt start (.badSignature found)
  else
    skip 4 (some "signature")
    let width ← readDialect
    takeNote (.header width)
    return ⟨width⟩

theorem readHeader_eq :
    readHeader = position >>= fun start => peek 4 >>= fun found => readSigned start found := rfl

end Scan

namespace Simulation

open Scan

variable (sim : Simulation)

theorem readString {read read' : TextReader} (w : SizeWidth) (field : Text)
    (htext : ∀ start payload, sim.Rel L.text (textOf read start field payload)
      (textOf read' start field payload)) :
    sim.Rel (Option.Rel L.text) (readString w.bytes read field)
      (readString w.bytes read' field) := by
  apply sim.bind_eq sim.position
  intro start
  apply sim.bind_eq (sim.readSize w _)
  intro size
  by_cases hsize : size = 0
  · rw [readContent, readContent, if_pos hsize, if_pos hsize]
    exact sim.pure .none
  · rw [readContent, readContent, if_neg hsize, if_neg hsize]
    apply sim.bind_eq (sim.takes_eq (takes_readBytes size _))
    intro content
    apply sim.bind (htext _ _)
    intro s t hst
    exact sim.pure (.some hst)

theorem skipString (w : SizeWidth) (field : Text) :
    sim.Rel Eq (skipString w.bytes field) (skipString w.bytes field) := by
  apply sim.bind_eq (sim.readSize w _)
  intro size
  exact sim.takes_eq (takes_skip size _)

theorem readValue {read read' : TextReader} (w : SizeWidth) (start : Int) (tag : Nat)
    (hstring : sim.Rel (Option.Rel L.text) (Scan.readString w.bytes read "string constant")
      (Scan.readString w.bytes read' "string constant")) :
    sim.Rel (Constant.Like L) (readValue w.bytes read start tag)
      (readValue w.bytes read' start tag) := by
  unfold Scan.readValue
  split
  · exact sim.pure .nil
  · apply sim.bind_eq (sim.takes_eq (takes_readU8 _))
    intro n
    exact sim.pure (.boolean _)
  · apply sim.bind_eq (sim.takes_eq (takes_readDouble _))
    intro x
    exact sim.pure (.number x)
  · apply sim.bind hstring
    intro s t hst
    exact sim.pure (.string hst)
  · exact sim.failAt start (by simp [DecodeError.kind])

theorem readConstant {read read' : TextReader} (w : SizeWidth)
    (hstring : sim.Rel (Option.Rel L.text) (Scan.readString w.bytes read "string constant")
      (Scan.readString w.bytes read' "string constant")) :
    sim.Rel (Constant.Like L) (readConstant w.bytes read) (readConstant w.bytes read') := by
  apply sim.bind_eq sim.position
  intro start
  apply sim.bind_eq (sim.takes_eq (takes_readU8 _))
  intro tag
  exact sim.readValue w start tag hstring

theorem readHeaderByte (field : Header.Field) :
    sim.Rel Eq (readHeaderByte field) (readHeaderByte field) := by
  apply sim.bind_eq sim.position
  intro start
  apply sim.bind_eq (sim.takes_eq (takes_readU8 _))
  intro found
  by_cases haccepted : found ∈ field.accepted
  · rw [if_pos haccepted]
    exact sim.pure rfl
  · rw [if_neg haccepted]
    exact sim.failAt start (by simp [DecodeError.kind])

theorem readDialect : sim.Rel Eq readDialect readDialect :=
  sim.bind_eq (sim.readHeaderByte _) fun _ => sim.bind_eq (sim.readHeaderByte _)
    fun _ => sim.bind_eq (sim.readHeaderByte _) fun _ => sim.bind_eq (sim.readHeaderByte _)
    fun _ => sim.bind_eq (sim.readHeaderByte _) fun _ => sim.bind_eq (sim.readHeaderByte _)
    fun _ => sim.bind_eq (sim.readHeaderByte _) fun _ => sim.bind_eq (sim.readHeaderByte _)
    fun _ => sim.pure rfl

theorem readSigned (start : Int) (found : Bytes) :
    sim.Rel Eq (readSigned start found) (readSigned start found) := by
  unfold Scan.readSigned
  by_cases hfound : found ≠ Header.signature
  · rw [if_pos hfound]
    exact sim.failAt start (by simp [DecodeError.kind])
  · rw [if_neg hfound]
    apply sim.bind_eq (sim.takes_eq (takes_skip 4 _))
    intro _
    apply sim.bind_eq sim.readDialect
    intro w
    apply sim.bind_eq (sim.takeNote _ _)
    intro _
    exact sim.pure rfl

end Simulation

namespace Decoder

open Scan

/-- The fields whose text is read; the text of every other string is passed over. -/
def textFields : List Text := ["source name", "string constant"]

/-- What two decoders have to agree on for a relation between their parts to carry over. -/
structure Simulates (sim : Simulation) (L : Likeness) (d d' : Decoder) : Prop where
  width : d.width = d'.width
  instruction : ∀ word : Nat, L.instruction (.ofWord d.options.verboseInstructions word)
    (.ofWord d'.options.verboseInstructions word)
  string : ∀ field ∈ textFields, sim.Rel (Option.Rel L.text)
    (readString d.width.bytes d.options.stringErrors.read field)
    (readString d'.width.bytes d'.options.stringErrors.read field)
  count : ∀ field recordSize, sim.Rel Eq (d.readCount field recordSize)
    (d'.readCount field recordSize)

variable {sim : Simulation} {d d' : Decoder}

/-- Strings of one width are related if their texts are, wherever they start. -/
theorem readString_of_text (hwidth : d.width = d'.width)
    (htext : ∀ start, ∀ field ∈ textFields, ∀ payload, sim.Rel L.text
      (textOf d.options.stringErrors.read start field payload)
      (textOf d'.options.stringErrors.read start field payload)) :
    ∀ field ∈ textFields, sim.Rel (Option.Rel L.text)
      (readString d.width.bytes d.options.stringErrors.read field)
      (readString d'.width.bytes d'.options.stringErrors.read field) := by
  intro field hfield
  rw [hwidth]
  exact sim.readString d'.width field fun start => htext start field hfield

/-! ### Records -/

theorem Simulates.readRecords {α β : Type} {R : α → β → Prop} (h : Simulates sim L d d')
    (field : Text) (recordSize : Nat) {record : Scan α} {record' : Scan β}
    (hrecord : sim.Rel R record record') :
    sim.Rel (List.Forall₂ R) (d.readRecords field recordSize record)
      (d'.readRecords field recordSize record') := by
  apply sim.bind_eq (h.count field recordSize)
  intro count
  exact sim.times hrecord count

theorem Simulates.readInstructions (h : Simulates sim L d d') :
    sim.Rel (List.Forall₂ L.instruction) d.readInstructions d'.readInstructions := by
  apply sim.bind_eq (h.count _ 4)
  intro count
  apply sim.bind (sim.takes (takes_readBytes (count * 4) _))
  intro block block' hblocks
  obtain ⟨word, hlength, hblock, hblock'⟩ := hblocks
  obtain ⟨ws, _, hws⟩ := exists_words hlength
  have hwords : liftResult (Bytes.words word 4) = Pure.pure (ws.map UInt32.toNat) := by
    rw [hws, words_flatMap_word]
    rfl
  rw [hblock, hblock', id_eq, hwords, pure_bind, pure_bind]
  apply sim.pure
  rw [List.forall₂_map_left_iff, List.forall₂_map_right_iff, List.forall₂_same]
  intro x _
  exact h.instruction x

theorem Simulates.readConstants (h : Simulates sim L d d') :
    sim.Rel (List.Forall₂ (Constant.Like L)) d.readConstants d'.readConstants := by
  apply h.readRecords
  have hstring := h.string "string constant" (by simp [textFields])
  rw [h.width] at hstring ⊢
  exact sim.readConstant d'.width hstring

theorem Simulates.readInfo (h : Simulates sim L d d') :
    sim.Rel (FunctionInfo.Like L) d.readInfo d'.readInfo := by
  unfold Decoder.readInfo
  apply sim.bind (h.string "source name" (by simp [textFields]))
  intro source source' hsource
  apply sim.bind_eq (sim.takes_eq (takes_readU32 _))
  intro lineDefined
  apply sim.bind_eq (sim.takes_eq (takes_readU32 _))
  intro lastLineDefined
  apply sim.bind_eq (sim.takes_eq (takes_readU8 _))
  intro upvalueCount
  apply sim.bind_eq (sim.takes_eq (takes_readU8 _))
  intro parameterCount
  apply sim.bind_eq (sim.takes_eq (takes_readU8 _))
  intro varargFlag
  apply sim.bind_eq (sim.takes_eq (takes_readU8 _))
  intro maxStackSize
  apply sim.bind h.readInstructions
  intro is is' his
  apply sim.bind h.readConstants
  intro cs cs' hcs
  exact sim.pure ⟨hsource, rfl, rfl, rfl, rfl, rfl, rfl, his, hcs⟩

theorem Simulates.skipDebug (h : Simulates sim L d d') :
    sim.Rel Eq d.skipDebug d'.skipDebug := by
  have hlines : sim.Rel Eq d.skipLines d'.skipLines := by
    apply sim.bind_eq (h.count _ 4)
    intro lines
    exact sim.takes_eq (takes_skip (lines * 4) _)
  have hlocal : sim.Rel Eq d.skipLocal d'.skipLocal := by
    unfold skipLocal
    rw [h.width]
    apply sim.bind_eq (sim.skipString d'.width _)
    intro _
    exact sim.takes_eq (takes_skip localSize _)
  have hname : sim.Rel Eq d.skipUpvalueName d'.skipUpvalueName := by
    unfold skipUpvalueName
    rw [h.width]
    exact sim.skipString d'.width _
  unfold Decoder.skipDebug
  rw [h.width]
  apply sim.bind_eq hlines
  intro _
  apply sim.bind (h.readRecords _ _ hlocal)
  intro _ _ _
  apply sim.bind (h.readRecords _ _ hname)
  intro _ _ _
  exact sim.pure rfl

/-! ### Prototypes -/

/-- One level of prototypes, with any number of levels left on either side. -/
theorem Simulates.readPrototype_succ (h : Simulates sim L d d') {levels levels' depth : Nat}
    (hchildren : sim.Rel (Prototype.Like L) (d.readPrototype levels (depth + 1))
      (d'.readPrototype levels' (depth + 1))) :
    sim.Rel (Prototype.Like L) (d.readPrototype (levels + 1) depth)
      (d'.readPrototype (levels' + 1) depth) := by
  unfold Decoder.readPrototype
  apply sim.bind_eq sim.position
  intro start
  apply sim.bind h.readInfo
  intro info info' hinfo
  rw [h.width]
  apply sim.bind (h.readRecords _ _ hchildren)
  intro children children' hall
  apply sim.bind_eq h.skipDebug
  intro _
  apply sim.bind_eq (sim.takeNote _ _)
  intro _
  exact sim.pure ⟨hinfo, .of_forall₂ hall⟩

theorem Simulates.readPrototype (h : Simulates sim L d d')
    (hlimit : d.options.maxDepth = d'.options.maxDepth) (levels depth : Nat) :
    sim.Rel (Prototype.Like L) (d.readPrototype levels depth) (d'.readPrototype levels depth) := by
  induction levels generalizing depth with
  | zero =>
    apply sim.bind_eq sim.position
    intro start
    rw [hlimit]
    exact sim.failAt start (by simp [DecodeError.kind])
  | succ levels ih => exact h.readPrototype_succ (ih (depth + 1))

end Decoder

end LuaBytecode
