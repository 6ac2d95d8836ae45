import LuaBytecode.Decode
import LuaBytecode.Proofs.Scan.Reading

/-!
# The grammar of chunks

A chunk as it is stored: a term of the grammar keeps all that the bytes say, also what a decode
passes over. Each term is written as bytes in one way, may be too large for the width of the size
fields, and stands for what a decode is to return if all its strings can be read.

Prototypes nest, so that what is said of one is said of a list of them at the same time.
-/

namespace LuaBytecode

def Bytes.counted {τ : Type} (bytes : τ → Bytes) (ts : List τ) : Bytes :=
  ofLittleEndian 4 ts.length ++ ts.flatMap bytes

namespace Format

variable {τ α : Type}

def counted (F : Format τ α) : Format (List τ) (List α) where
  bytes := Bytes.counted F.bytes
  Fits ts := ts.length < 2 ^ 32 ∧ ∀ t ∈ ts, F.Fits t
  value? ts := ts.mapM F.value?

theorem count_bind_repeated (F : Format τ α) (text : Bytes) (as : List α) :
    count.language.bind (fun n => (F.repeated n).language) text as ↔
      F.counted.language text as := by
  rw [bind_iff]
  constructor
  · intro h
    obtain ⟨n, _, _, rfl, hcount, hn, ts, ⟨rfl, hfits⟩, has, rfl⟩ := h
    cases hn
    exact ⟨ts, ⟨hcount, hfits⟩, has, rfl⟩
  · intro h
    obtain ⟨ts, ⟨hcount, hfits⟩, has, rfl⟩ := h
    exact ⟨ts.length, _, _, rfl, hcount, rfl, ts, ⟨rfl, hfits⟩, has, rfl⟩

def instruction (annotate : Bool) : Format UInt32 Instruction :=
  { word with value? := fun x => some (Instruction.ofWord annotate x.toNat) }

def headerByte (field : Header.Field) : Format UInt8 Nat where
  bytes b := [b]
  Fits b := b.toNat ∈ field.accepted
  value? b := some b.toNat

theorem bind_headerByte_iff (field : Header.Field) (value : UInt8)
    (haccepted : field.accepted = [value.toNat]) {K : Nat → Language α} {text : Bytes} {a : α} :
    (headerByte field).language.bind K text a ↔
      ∃ rest, text = value :: rest ∧ K value.toNat rest a := by
  rw [bind_iff]
  constructor
  · intro h
    obtain ⟨x, _, rest, rfl, hx, hvalue, hrest⟩ := h
    cases hvalue
    have hx : x.toNat ∈ field.accepted := hx
    rw [haccepted, List.mem_singleton, UInt8.toNat_inj] at hx
    subst hx
    exact ⟨rest, rfl, hrest⟩
  · intro h
    obtain ⟨rest, rfl, hrest⟩ := h
    refine ⟨value, _, rest, rfl, ?_, rfl, hrest⟩
    change value.toNat ∈ field.accepted
    rw [haccepted]
    exact List.mem_singleton_self _

/-- The format of what is passed over: every term stands for the same value. -/
def passed (F : Format τ α) : Format τ Unit := { F with value? := fun _ => some () }

end Format

/-- A string field. What is present has a byte after it, which is a terminator of any value. -/
inductive StoredString where
  | absent
  | present (payload : Bytes) (terminator : UInt8)
  deriving DecidableEq

namespace StoredString

def content : StoredString → Bytes
  | .absent => []
  | .present payload terminator => payload ++ [terminator]

def bytes (w : SizeWidth) (s : StoredString) : Bytes :=
  Bytes.ofLittleEndian w.bytes s.content.length ++ s.content

def Fits (w : SizeWidth) (s : StoredString) : Prop :=
  s.content.length < 256 ^ w.bytes ∧ s.content.length ≤ maxSize

def payloads : StoredString → List Bytes
  | .absent => []
  | .present payload _ => [payload]

def text? (read : TextReader) : StoredString → Option (Option Text)
  | .absent => some none
  | .present payload _ => (read payload).toOption.map some

def format (w : SizeWidth) (read : TextReader) : Format StoredString (Option Text) :=
  ⟨bytes w, Fits w, text? read⟩

end StoredString

inductive StoredConstant where
  | nil
  | boolean (b : UInt8)
  | number (x : Binary64)
  | string (s : StoredString)
  deriving DecidableEq

namespace StoredConstant

def tag : StoredConstant → UInt8
  | .nil => 0
  | .boolean _ => 1
  | .number _ => 3
  | .string _ => 4

def content (w : SizeWidth) : StoredConstant → Bytes
  | .nil => []
  | .boolean b => [b]
  | .number x => Bytes.ofLittleEndian 8 x.bits.toNat
  | .string s => s.bytes w

def bytes (w : SizeWidth) (c : StoredConstant) : Bytes := c.tag :: c.content w

def Fits (w : SizeWidth) : StoredConstant → Prop
  | .string s => s.Fits w
  | _ => True

def payloads : StoredConstant → List Bytes
  | .string s => s.payloads
  | _ => []

def constant? (read : TextReader) : StoredConstant → Option Constant
  | .nil => some .nil
  | .boolean b => some (.boolean (b != 0))
  | .number x => some (.number x)
  | .string s => (s.text? read).map .string

def format (w : SizeWidth) (read : TextReader) : Format StoredConstant Constant :=
  ⟨bytes w, Fits w, constant? read⟩

end StoredConstant

/-- A local variable: its name, and the instructions between which it lives. -/
structure StoredLocal where
  name : StoredString
  start : UInt32
  stop : UInt32
  deriving DecidableEq

namespace StoredLocal

def bytes (w : SizeWidth) (l : StoredLocal) : Bytes :=
  l.name.bytes w ++ Format.word.bytes l.start ++ Format.word.bytes l.stop

def format (w : SizeWidth) : Format StoredLocal Unit :=
  ⟨bytes w, fun l => l.name.Fits w, fun _ => some ()⟩

end StoredLocal

structure StoredFunction where
  source : StoredString
  lineDefined : UInt32
  lastLineDefined : UInt32
  upvalueCount : UInt8
  parameterCount : UInt8
  varargFlag : UInt8
  maxStackSize : UInt8
  instructions : List UInt32
  constants : List StoredConstant
  deriving DecidableEq

namespace StoredFunction

def bytes (w : SizeWidth) (f : StoredFunction) : Bytes :=
  f.source.bytes w ++ Format.word.bytes f.lineDefined ++ Format.word.bytes f.lastLineDefined ++
    [f.upvalueCount, f.parameterCount, f.varargFlag, f.maxStackSize] ++
    Bytes.counted Format.word.bytes f.instructions ++
    Bytes.counted (StoredConstant.bytes w) f.constants

def Fits (w : SizeWidth) (f : StoredFunction) : Prop :=
  f.source.Fits w ∧ f.instructions.length < 2 ^ 32 ∧ f.constants.length < 2 ^ 32 ∧
    ∀ c ∈ f.constants, c.Fits w

def payloads (f : StoredFunction) : List Bytes :=
  f.source.payloads ++ f.constants.flatMap StoredConstant.payloads

def info? (annotate : Bool) (read : TextReader) (f : StoredFunction) : Option FunctionInfo := do
  let source ← f.source.text? read
  let constants ← f.constants.mapM (StoredConstant.constant? read)
  return ⟨source, f.lineDefined.toNat, f.lastLineDefined.toNat, f.upvalueCount.toNat,
    f.parameterCount.toNat, f.varargFlag.toNat, f.maxStackSize.toNat,
    f.instructions.map fun x => Instruction.ofWord annotate x.toNat, constants⟩

def format (w : SizeWidth) (annotate : Bool) (read : TextReader) :
    Format StoredFunction FunctionInfo :=
  ⟨bytes w, Fits w, info? annotate read⟩

theorem info?_eq_some_iff {annotate : Bool} {read : TextReader} {f : StoredFunction}
    {info : FunctionInfo} :
    f.info? annotate read = some info ↔
      ∃ source, f.source.text? read = some source ∧
        ∃ constants, f.constants.mapM (StoredConstant.constant? read) = some constants ∧
          ⟨source, f.lineDefined.toNat, f.lastLineDefined.toNat, f.upvalueCount.toNat,
            f.parameterCount.toNat, f.varargFlag.toNat, f.maxStackSize.toNat,
            f.instructions.map fun x => Instruction.ofWord annotate x.toNat, constants⟩ = info := by
  simp [info?, Option.bind_eq_some_iff]

end StoredFunction

structure StoredDebug where
  lines : List UInt32
  locals : List StoredLocal
  upvalueNames : List StoredString
  deriving DecidableEq

namespace StoredDebug

def bytes (w : SizeWidth) (d : StoredDebug) : Bytes :=
  Bytes.counted Format.word.bytes d.lines ++ Bytes.counted (StoredLocal.bytes w) d.locals ++
    Bytes.counted (StoredString.bytes w) d.upvalueNames

def Fits (w : SizeWidth) (d : StoredDebug) : Prop :=
  d.lines.length < 2 ^ 32 ∧
    (d.locals.length < 2 ^ 32 ∧ ∀ l ∈ d.locals, l.name.Fits w) ∧
    d.upvalueNames.length < 2 ^ 32 ∧ ∀ s ∈ d.upvalueNames, s.Fits w

def format (w : SizeWidth) : Format StoredDebug Unit := ⟨bytes w, Fits w, fun _ => some ()⟩

end StoredDebug

inductive StoredPrototype where
  | node (function : StoredFunction) (children : List StoredPrototype) (debug : StoredDebug)

namespace StoredPrototype

mutual

def bytes (w : SizeWidth) : StoredPrototype → Bytes
  | .node f children d =>
    f.bytes w ++ (Bytes.ofLittleEndian 4 children.length ++ bytesAll w children) ++ d.bytes w

def bytesAll (w : SizeWidth) : List StoredPrototype → Bytes
  | [] => []
  | p :: rest => bytes w p ++ bytesAll w rest

end

mutual

def Fits (w : SizeWidth) : StoredPrototype → Prop
  | .node f children d => f.Fits w ∧ (children.length < 2 ^ 32 ∧ FitAll w children) ∧ d.Fits w

def FitAll (w : SizeWidth) : List StoredPrototype → Prop
  | [] => True
  | p :: rest => Fits w p ∧ FitAll w rest

end

mutual

/-- How deep the prototypes below this one nest; none below it are depth zero. -/
def depth : StoredPrototype → Nat
  | .node _ children _ => levels children

def levels : List StoredPrototype → Nat
  | [] => 0
  | p :: rest => max (depth p + 1) (levels rest)

end

mutual

def payloads : StoredPrototype → List Bytes
  | .node f children _ => f.payloads ++ payloadsAll children

def payloadsAll : List StoredPrototype → List Bytes
  | [] => []
  | p :: rest => payloads p ++ payloadsAll rest

end

mutual

def tree? (annotate : Bool) (read : TextReader) : StoredPrototype → Option Prototype
  | .node f children _ => do
    let info ← f.info? annotate read
    let trees ← treeAll? annotate read children
    return .node info trees

def treeAll? (annotate : Bool) (read : TextReader) :
    List StoredPrototype → Option (List Prototype)
  | [] => some []
  | p :: rest => do
    let tree ← tree? annotate read p
    let trees ← treeAll? annotate read rest
    return tree :: trees

end

def format (w : SizeWidth) (annotate : Bool) (read : TextReader) (n : Nat) :
    Format StoredPrototype Prototype :=
  ⟨bytes w, fun p => p.Fits w ∧ p.depth < n, tree? annotate read⟩

theorem bytesAll_eq_flatMap (w : SizeWidth) (ps : List StoredPrototype) :
    bytesAll w ps = ps.flatMap (bytes w) := by
  induction ps with
  | nil => rfl
  | cons p rest ih => rw [bytesAll, ih, List.flatMap_cons]

theorem bytes_node (w : SizeWidth) (f : StoredFunction) (children : List StoredPrototype)
    (d : StoredDebug) :
    (node f children d).bytes w = f.bytes w ++ Bytes.counted (bytes w) children ++ d.bytes w := by
  rw [bytes, bytesAll_eq_flatMap]
  rfl

theorem fitAll_iff (w : SizeWidth) (ps : List StoredPrototype) :
    FitAll w ps ↔ ∀ p ∈ ps, p.Fits w := by
  induction ps with
  | nil => simp [FitAll]
  | cons p rest ih => rw [FitAll, ih, List.forall_mem_cons]

theorem treeAll?_eq_mapM (annotate : Bool) (read : TextReader) (ps : List StoredPrototype) :
    treeAll? annotate read ps = ps.mapM (tree? annotate read) := by
  induction ps with
  | nil => rfl
  | cons p rest ih => rw [treeAll?, ih, List.mapM_cons]

theorem tree?_node_eq_some_iff {annotate : Bool} {read : TextReader} {f : StoredFunction}
    {children : List StoredPrototype} {d : StoredDebug} {tree : Prototype} :
    (node f children d).tree? annotate read = some tree ↔
      ∃ info, f.info? annotate read = some info ∧
        ∃ trees, treeAll? annotate read children = some trees ∧ .node info trees = tree := by
  simp [tree?, Option.bind_eq_some_iff]

theorem treeAll?_cons_eq_some_iff {annotate : Bool} {read : TextReader} {p : StoredPrototype}
    {rest : List StoredPrototype} {trees : List Prototype} :
    treeAll? annotate read (p :: rest) = some trees ↔
      ∃ tree, p.tree? annotate read = some tree ∧
        ∃ others, treeAll? annotate read rest = some others ∧ tree :: others = trees := by
  simp [treeAll?, Option.bind_eq_some_iff]

theorem tree?_eq_some_iff {annotate : Bool} {read : TextReader} {f : StoredFunction}
    {children : List StoredPrototype} {d : StoredDebug} {tree : Prototype} :
    (node f children d).tree? annotate read = some tree ↔
      ∃ info, f.info? annotate read = some info ∧
        ∃ trees, children.mapM (tree? annotate read) = some trees ∧ .node info trees = tree := by
  rw [tree?_node_eq_some_iff, treeAll?_eq_mapM]

theorem levels_le_iff (ps : List StoredPrototype) (n : Nat) :
    levels ps ≤ n ↔ ∀ p ∈ ps, p.depth < n := by
  induction ps with
  | nil => simp [levels]
  | cons p rest ih =>
    rw [levels, Nat.max_le, ih, List.forall_mem_cons]
    exact and_congr_left' Nat.succ_le_iff

end StoredPrototype

/-! ### Least sizes -/

theorem Bytes.four_le_length_counted {τ : Type} (bytes : τ → Bytes) (ts : List τ) :
    4 ≤ (counted bytes ts).length := by
  rw [counted, List.length_append, length_ofLittleEndian]
  exact Nat.le_add_right 4 _

theorem Format.length_word_bytes (x : UInt32) : (Format.word.bytes x).length = 4 :=
  Bytes.length_ofLittleEndian 4 _

theorem StoredString.le_length_bytes (w : SizeWidth) (s : StoredString) :
    w.bytes ≤ (s.bytes w).length := by
  rw [bytes, List.length_append, Bytes.length_ofLittleEndian]
  exact Nat.le_add_right _ _

theorem StoredConstant.le_length_bytes (w : SizeWidth) (c : StoredConstant) :
    1 ≤ (c.bytes w).length :=
  Nat.succ_le_succ (Nat.zero_le _)

theorem StoredLocal.le_length_bytes (w : SizeWidth) (l : StoredLocal) :
    w.bytes + Decoder.localSize ≤ (l.bytes w).length := by
  have hname := l.name.le_length_bytes w
  simp only [bytes, List.length_append, Format.length_word_bytes, Decoder.localSize]
  omega

theorem StoredFunction.le_length_bytes (w : SizeWidth) (f : StoredFunction) :
    w.bytes + 20 ≤ (f.bytes w).length := by
  have hsource := f.source.le_length_bytes w
  have hinstructions := Bytes.four_le_length_counted Format.word.bytes f.instructions
  have hconstants := Bytes.four_le_length_counted (StoredConstant.bytes w) f.constants
  simp only [bytes, List.length_append, Format.length_word_bytes, List.length_cons, List.length_nil]
  omega

theorem StoredDebug.le_length_bytes (w : SizeWidth) (d : StoredDebug) :
    12 ≤ (d.bytes w).length := by
  have hlines := Bytes.four_le_length_counted Format.word.bytes d.lines
  have hlocals := Bytes.four_le_length_counted (StoredLocal.bytes w) d.locals
  have hnames := Bytes.four_le_length_counted (StoredString.bytes w) d.upvalueNames
  simp only [bytes, List.length_append]
  omega

theorem StoredPrototype.le_length_bytes (w : SizeWidth) (p : StoredPrototype) :
    w.bytes + Decoder.prototypeSize ≤ (p.bytes w).length := by
  obtain ⟨f, children, d⟩ := p
  have hfunction := f.le_length_bytes w
  have hdebug := d.le_length_bytes w
  simp only [bytes, List.length_append, Bytes.length_ofLittleEndian, Decoder.prototypeSize]
  omega

theorem StoredPrototype.le_length_bytesAll (w : SizeWidth) (ps : List StoredPrototype) :
    ps.length * (w.bytes + Decoder.prototypeSize) ≤ (bytesAll w ps).length := by
  induction ps with
  | nil => exact Nat.le_of_eq (Nat.zero_mul _)
  | cons p rest ih =>
    calc (p :: rest).length * (w.bytes + Decoder.prototypeSize)
        = rest.length * (w.bytes + Decoder.prototypeSize) + (w.bytes + Decoder.prototypeSize) :=
          Nat.succ_mul _ _
      _ ≤ (bytesAll w rest).length + (p.bytes w).length := Nat.add_le_add ih (p.le_length_bytes w)
      _ = (bytesAll w (p :: rest)).length := by rw [bytesAll, List.length_append, Nat.add_comm]

/-- A whole buffer: the width that the header declares, the main prototype, and what follows it. -/
structure StoredChunk where
  width : SizeWidth
  root : StoredPrototype
  trailing : Bytes

namespace StoredChunk

def headerBytes (w : SizeWidth) : Bytes :=
  Header.signature ++ [0x51, 0x00, 0x01, 0x04, UInt8.ofNat w.bytes, 0x04, 0x08, 0x00]

def bytes (c : StoredChunk) : Bytes :=
  headerBytes c.width ++ c.root.bytes c.width ++ c.trailing

def Fits (c : StoredChunk) : Prop := c.root.Fits c.width

/-- The stored chunk is one way to read the buffer. -/
def Derives (c : StoredChunk) (b : Bytes) : Prop := c.bytes = b ∧ c.Fits

structure Admissible (o : Options) (c : StoredChunk) : Prop where
  depth_le : c.root.depth ≤ o.maxDepth
  readable : ∀ payload ∈ c.root.payloads, ∃ t, o.stringErrors.read payload = .ok t
  trailing : c.trailing = [] ∨ o.allowTrailingData = true

end StoredChunk

end LuaBytecode
