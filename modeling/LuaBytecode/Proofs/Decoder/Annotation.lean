import LuaBytecode.Proofs.Decoder.StringPolicies
import LuaBytecode.Proofs.Options
import LuaBytecode.Proofs.Prototype.Positions

/-!
# Annotated instructions

Whether instructions are annotated with their operations makes no difference to a decode but for the
annotations: it fails in the same way, or returns the same tree when these are erased. The annotation
of an instruction is told by its word, at every depth. The argument of a decode that asks for
annotations is a layer over the option of that name.
-/

namespace LuaBytecode

/-! ### Erasing annotations -/

def Instruction.plain (i : Instruction) : Instruction := { i with operation := none }

def FunctionInfo.plain (f : FunctionInfo) : FunctionInfo :=
  { f with instructions := f.instructions.map Instruction.plain }

namespace Prototype

mutual

/-- The tree with all annotations erased. -/
def plain : Prototype → Prototype
  | .node info children => .node info.plain (plainAll children)

def plainAll : List Prototype → List Prototype
  | [] => []
  | p :: rest => plain p :: plainAll rest

end

end Prototype

def Chunk.plain (c : Chunk) : Chunk := { c with root := c.root.plain }

namespace Likeness

/-- The instructions on one side are those on the other without their annotations. -/
def erased : Likeness := ⟨Eq, fun i j => i = j.plain⟩

/-- The instructions are as they are made of their words. -/
def annotated (annotate : Bool) : Likeness := ⟨Eq, fun i _ => i = .ofWord annotate i.word⟩

end Likeness

theorem FunctionInfo.Like.eq_plain {f g : FunctionInfo} (h : f.Like .erased g) : f = g.plain := by
  have hinstructions : f.instructions = g.instructions.map Instruction.plain := by
    rw [← List.forall₂_eq_eq_eq, List.forall₂_map_right_iff]
    exact h.instructions
  rw [h.eq_with rfl, hinstructions, plain]

namespace Prototype

mutual

theorem Like.eq_plain : {p q : Prototype} → p.Like .erased q → p = q.plain
  | .node f ps, .node g qs, ⟨hinfo, hchildren⟩ => by
    rw [hinfo.eq_plain, LikeAll.eq_plainAll hchildren, plain]

theorem LikeAll.eq_plainAll : {ps qs : List Prototype} → LikeAll .erased ps qs → ps = plainAll qs
  | [], [], _ => rfl
  | p :: ps, q :: qs, ⟨hhead, htail⟩ => by
    rw [Like.eq_plain hhead, LikeAll.eq_plainAll htail, plainAll]

end

end Prototype

/-! ### The instructions of a tree -/

theorem FunctionInfo.Like.forall_instruction {L : Likeness} {P : Instruction → Prop}
    (hP : ∀ i j, L.instruction i j → P i) {f g : FunctionInfo} (h : f.Like L g) :
    ∀ i ∈ f.instructions, P i := by
  have hboth := h.instructions.imp fun i j hij => And.intro (hP i j hij) hij
  exact (List.forall₂_and_left f.instructions g.instructions).mp hboth |>.1

namespace Prototype

mutual

/-- What is related to other instructions everywhere in a tree has what the relation implies. -/
theorem Like.forall_instruction {L : Likeness} {P : Instruction → Prop}
    (hP : ∀ i j, L.instruction i j → P i) : {p q : Prototype} → p.Like L q →
    ∀ r ∈ p.preorder, ∀ i ∈ r.info.instructions, P i
  | .node f ps, .node g qs, ⟨hinfo, hchildren⟩, r, hr => by
    rw [preorder] at hr
    rcases List.mem_cons.mp hr with rfl | hr
    · exact hinfo.forall_instruction hP
    · exact LikeAll.forall_instruction hP hchildren r hr

theorem LikeAll.forall_instruction {L : Likeness} {P : Instruction → Prop}
    (hP : ∀ i j, L.instruction i j → P i) : {ps qs : List Prototype} → LikeAll L ps qs →
    ∀ r ∈ preorderAll ps, ∀ i ∈ r.info.instructions, P i
  | [], [], _, r, hr => by
    cases hr
  | p :: ps, q :: qs, ⟨hhead, htail⟩, r, hr => by
    rw [preorderAll] at hr
    rcases List.mem_append.mp hr with hr | hr
    · exact Like.forall_instruction hP hhead r hr
    · exact LikeAll.forall_instruction hP htail r hr

end

end Prototype

/-! ### Decodes that differ in the annotation -/

def Options.annotating (o : Options) (annotate : Bool) : Options :=
  { o with verboseInstructions := annotate }

namespace Decoder

open Scan

theorem comparable_annotating (w : SizeWidth) (o : Options) {L : Likeness} (hL : L.text = Eq)
    {annotate annotate' : Bool}
    (h : ∀ word, L.instruction (.ofWord annotate word) (.ofWord annotate' word)) :
    Comparable sameFaults L ⟨w, o.annotating annotate, .atCount⟩
      ⟨w, o.annotating annotate', .atCount⟩ where
  width := rfl
  maxDepth := rfl
  instruction word := h word
  text start field _ := by
    rw [hL]
    exact textOf_parallel_self (fun _ => rfl) o.stringErrors.read start field
  check := checkCount_parallel_self rfl

/-- Where no fault comes early and each matches only itself, both sides fail alike or neither does. -/
theorem ok_or_error_of_alike {α β : Type} {R : α → β → Prop} {before after : Bytes} {r : Scanned α}
    {r' : Scanned β} (h : Alike sameFaults R before after r r') :
    (∃ a b, r.result = .ok a ∧ r'.result = .ok b ∧ R a b) ∨
      ∃ f, r.result = .error f ∧ r'.result = .error f := by
  cases h with
  | ok hafter hvalue => exact .inl ⟨_, _, rfl, rfl, hvalue⟩
  | error hfault =>
    cases hfault
    exact .inr ⟨_, rfl, rfl⟩
  | early hfault => exact hfault.elim

end Decoder

/-- Both decodes fail with one fault, or they return chunks that are alike. -/
theorem decode_annotating_alike (o : Options) (b : Bytes) {L : Likeness} (hL : L.text = Eq)
    {annotate annotate' : Bool}
    (h : ∀ word, L.instruction (.ofWord annotate word) (.ofWord annotate' word)) :
    (∃ c c', (decode (o.annotating annotate) b).1 = .ok c ∧
      (decode (o.annotating annotate') b).1 = .ok c' ∧ c.Like L c') ∨
    ∃ f, (decode (o.annotating annotate) b).1 = .error f ∧
      (decode (o.annotating annotate') b).1 = .error f := by
  exact Decoder.ok_or_error_of_alike
    (readChunk_parallel (fun w => Decoder.comparable_annotating w o hL h) rfl [] b)

theorem decode_plain (o : Options) (b : Bytes) : (decode (o.annotating false) b).1 =
    (decode (o.annotating true) b).1.map Chunk.plain := by
  have herased : ∀ word, Likeness.erased.instruction (.ofWord false word) (.ofWord true word) :=
    fun _ => rfl
  have halike := decode_annotating_alike o b rfl herased
  rcases halike with ⟨c, c', hc, hc', hlike⟩ | ⟨f, hf, hf'⟩
  · rw [hc, hc']
    obtain ⟨header, root, raw⟩ := c
    obtain ⟨hheader, hroot, hraw⟩ := hlike
    have hroot := hroot.eq_plain
    subst hheader hroot hraw
    rfl
  · rw [hf, hf']
    rfl

theorem forall_instruction_of_decode {o : Options} {b : Bytes} {annotate : Bool} {c : Chunk}
    (h : (decode (o.annotating annotate) b).1 = .ok c) :
    ∀ p ∈ c.root.preorder, ∀ i ∈ p.info.instructions, i = .ofWord annotate i.word := by
  have hself : ∀ word, (Likeness.annotated annotate).instruction (.ofWord annotate word)
      (.ofWord annotate word) := fun _ => rfl
  have halike := decode_annotating_alike o b rfl hself
  rcases halike with ⟨c', _, hc, _, hlike⟩ | ⟨f, hf, _⟩
  · cases h.symm.trans hc
    exact hlike.root.forall_instruction fun _ _ hi => hi
  · cases h.symm.trans hf

/-! ### The argument of a decode -/

namespace Options

theorem withOverrides_verbose (o : Options) (annotate : Bool) {v : Json} (hv : v.isNull = false) :
    (o.annotating annotate).withOverrides [(Name.verboseInstructions.text, v)] =
      ofMembers (Json.setMember Name.verboseInstructions.text v o.toMembers) := by
  have hchanges : [(Name.verboseInstructions.text, v)].filter (!·.2.isNull) =
      [(Name.verboseInstructions.text, v)] := by
    simp [hv]
  rw [withOverrides_eq_check (by simp [text_ne_reservedName]) (by simp [isName_text]), hchanges]
  rfl

theorem withOverrides_bool (o : Options) (annotate annotate' : Bool) :
    (o.annotating annotate).withOverrides [(Name.verboseInstructions.text, .bool annotate')] =
      .ok (o.annotating annotate') := by
  rw [withOverrides_eq_check (by simp [text_ne_reservedName]) (by simp [isName_text]),
    Draft.check_eq_ok_iff]
  intro name
  cases name <;> rfl

end Options

/-- Asking for annotations adds them and does nothing else: the decode without them fails in the same
way or returns the same tree with the annotations erased, which are at every depth what the words
say. An argument that is not null has the effect of the option of that name, whatever the option is. -/
theorem decode_annotating (o : Options) (b : Bytes) :
    (decode (o.annotating false) b).1 = (decode (o.annotating true) b).1.map Chunk.plain ∧
    (∀ c, (decode (o.annotating true) b).1 = .ok c →
      ∀ p ∈ c.root.preorder, ∀ i ∈ p.info.instructions, ∃ number : Nat,
        (number : Int) = i.word % 64 ∧ i.operation = some ⟨number, Opcode.lookup? number⟩) ∧
    (∀ c, (decode (o.annotating false) b).1 = .ok c →
      ∀ p ∈ c.root.preorder, ∀ i ∈ p.info.instructions, i.operation = none) ∧
    decodeWith o .null b = .ok (decode o b) ∧
    ∀ annotate : Bool,
      (∀ v : Json, v.isNull = false → decodeWith (o.annotating annotate) v b =
        (Options.ofMembers (Json.setMember Options.Name.verboseInstructions.text v
          o.toMembers)).map fun o' => decode o' b) ∧
      ∀ annotate' : Bool, decodeWith (o.annotating annotate) (.bool annotate') b =
        .ok (decode (o.annotating annotate') b) := by
  refine ⟨decode_plain o b, fun c hc p hp i hi => ?_, fun c hc p hp i hi => ?_, rfl,
    fun annotate => ⟨fun v hv => ?_, fun annotate' => ?_⟩⟩
  · have hword := forall_instruction_of_decode hc p hp i hi
    exact ⟨(i.word % 64).toNat, by omega, congrArg Instruction.operation hword⟩
  · exact congrArg Instruction.operation (forall_instruction_of_decode hc p hp i hi)
  · rw [decodeWith, o.withOverrides_verbose annotate hv]
  · rw [decodeWith, o.withOverrides_bool annotate annotate']
    rfl

/-- A prototype within another, each with one instruction; that of the outer one has no opcode. -/
def undefinedOpcode : Bytes :=
  StoredChunk.headerBytes .four ++ List.replicate 16 0x00 ++
    [0x01, 0x00, 0x00, 0x00, 0x3F, 0x00, 0x00, 0x80] ++ List.replicate 4 0x00 ++
    [0x01, 0x00, 0x00, 0x00] ++
    (List.replicate 16 0x00 ++ [0x01, 0x00, 0x00, 0x00, 0x01, 0x40, 0x00, 0x00] ++
      List.replicate 20 0x00) ++
    List.replicate 12 0x00

def undefinedOpcodeTree : Prototype :=
  .node ⟨none, 0, 0, 0, 0, 0, 0, [⟨0x8000003F, some ⟨63, none⟩⟩], []⟩
    [.node ⟨none, 0, 0, 0, 0, 0, 0, [⟨0x4001, some ⟨1, some ⟨1, "LOADK", .aBx⟩⟩⟩], []⟩ []]

theorem decode_undefinedOpcode :
    ∃ c, (decode (({} : Options).annotating true) undefinedOpcode).1 = .ok c ∧
      c.root = undefinedOpcodeTree ∧
      (∀ p ∈ c.root.preorder, ∀ i ∈ p.info.instructions, ∃ number : Nat,
        (number : Int) = i.word % 64 ∧ i.operation = some ⟨number, Opcode.lookup? number⟩) ∧
      (decode (({} : Options).annotating false) undefinedOpcode).1 = .ok c.plain ∧
      (∀ p ∈ c.plain.root.preorder, ∀ i ∈ p.info.instructions, i.operation = none) ∧
      decodeWith {} (.int 1) undefinedOpcode =
        (Options.ofMembers (Json.setMember Options.Name.verboseInstructions.text (.int 1)
          ({} : Options).toMembers)).map fun o => decode o undefinedOpcode := by
  have hc : (decode (({} : Options).annotating true) undefinedOpcode).1 =
      .ok ⟨⟨.four⟩, undefinedOpcodeTree, undefinedOpcode⟩ := by
    decide +kernel
  obtain ⟨hplain, hannotated, hbare, _, hargument⟩ := decode_annotating {} undefinedOpcode
  rw [hc] at hplain
  exact ⟨_, hc, rfl, hannotated _ hc, hplain, hbare _ hplain,
    (hargument false).1 (.int 1) rfl⟩

end LuaBytecode
