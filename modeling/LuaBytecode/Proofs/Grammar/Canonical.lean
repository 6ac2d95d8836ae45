import LuaBytecode.Proofs.Grammar.Unique
import LuaBytecode.Proofs.Text.Pieces

/-!
# The way back from a tree to its chunk

An encoder writes what a tree says and nothing else: three empty sections where a decode passes
over line numbers, local variables and upvalue names, a zero after every string, one for true. A
stored chunk that has no more to say than that is canonical. If malformed bytes were kept, the
encoder returns a canonical chunk to the byte; a NaN is no exception, since numbers are kept by
their bits.
-/

namespace LuaBytecode

namespace Encoder

def number? (size n : Nat) : Option Bytes :=
  if n < 256 ^ size then some (Bytes.ofLittleEndian size n) else none

def string? (w : SizeWidth) : Option Text → Option Bytes
  | none => number? w.bytes 0
  | some t => do
    let payload ← t.restore?
    let size ← number? w.bytes (payload.length + 1)
    return size ++ (payload ++ [0])

def constant? (w : SizeWidth) : Constant → Option Bytes
  | .nil => some [0]
  | .boolean b => some [1, if b then 1 else 0]
  | .number x => some (3 :: Bytes.ofLittleEndian 8 x.bits.toNat)
  | .string t => do
    let field ← string? w t
    return 4 :: field

def instruction? (i : Instruction) : Option Bytes :=
  if 0 ≤ i.word then number? 4 i.word.toNat else none

def sequence? {α : Type} (item? : α → Option Bytes) (as : List α) : Option Bytes := do
  let count ← number? 4 as.length
  let items ← as.mapM item?
  return count ++ items.flatten

def function? (w : SizeWidth) (f : FunctionInfo) : Option Bytes := do
  let source ← string? w f.source
  let lineDefined ← number? 4 f.lineDefined
  let lastLineDefined ← number? 4 f.lastLineDefined
  let upvalueCount ← number? 1 f.upvalueCount
  let parameterCount ← number? 1 f.parameterCount
  let varargFlag ← number? 1 f.varargFlag
  let maxStackSize ← number? 1 f.maxStackSize
  let instructions ← sequence? instruction? f.instructions
  let constants ← sequence? (constant? w) f.constants
  return source ++ lineDefined ++ lastLineDefined ++
    (upvalueCount ++ parameterCount ++ varargFlag ++ maxStackSize) ++ instructions ++ constants

def emptyDebug : Bytes :=
  Bytes.ofLittleEndian 4 0 ++ Bytes.ofLittleEndian 4 0 ++ Bytes.ofLittleEndian 4 0

mutual

def prototype? (w : SizeWidth) : Prototype → Option Bytes
  | .node f children => do
    let function ← function? w f
    let count ← number? 4 children.length
    let nested ← prototypes? w children
    return function ++ (count ++ nested) ++ emptyDebug

def prototypes? (w : SizeWidth) : List Prototype → Option Bytes
  | [] => some []
  | p :: rest => do
    let first ← prototype? w p
    let others ← prototypes? w rest
    return first ++ others

end

def chunk? (header : Header) (root : Prototype) : Option Bytes := do
  let body ← prototype? header.sizeWidth root
  return StoredChunk.headerBytes header.sizeWidth ++ body

end Encoder

/-! ### Canonical terms -/

def StoredString.Canonical : StoredString → Prop
  | .absent => True
  | .present _ terminator => terminator = 0

def StoredConstant.Canonical : StoredConstant → Prop
  | .boolean b => b = 0 ∨ b = 1
  | .string s => s.Canonical
  | _ => True

def StoredFunction.Canonical (f : StoredFunction) : Prop :=
  f.source.Canonical ∧ ∀ c ∈ f.constants, c.Canonical

namespace StoredPrototype

mutual

def Canonical : StoredPrototype → Prop
  | .node f children debug => f.Canonical ∧ AllCanonical children ∧ debug = ⟨[], [], []⟩

def AllCanonical : List StoredPrototype → Prop
  | [] => True
  | p :: rest => Canonical p ∧ AllCanonical rest

end

end StoredPrototype

namespace Encoder

/-! ### Encoding canonical terms -/

theorem number?_of_lt {size n : Nat} (h : n < 256 ^ size) :
    number? size n = some (Bytes.ofLittleEndian size n) :=
  if_pos h

theorem number?_byte (b : UInt8) : number? 1 b.toNat = some [b] := by
  rw [number?_of_lt b.toNat_lt]
  simp [Bytes.ofLittleEndian]

theorem number?_word (x : UInt32) : number? 4 x.toNat = some (Format.word.bytes x) :=
  number?_of_lt x.toNat_lt

theorem string?_of_text? {w : SizeWidth} {s : StoredString} {text : Option Text} (hfits : s.Fits w)
    (hcanonical : s.Canonical) (htext : s.text? Policy.surrogateEscape.read = some text) :
    string? w text = some (s.bytes w) := by
  cases s with
  | absent =>
    cases htext
    exact (number?_of_lt hfits.1).trans (congrArg some (List.append_nil _).symm)
  | present payload terminator =>
    have hterminator : terminator = 0 := hcanonical
    have hlength : (StoredString.present payload terminator).content.length = payload.length + 1 :=
      List.length_append
    rw [StoredString.text?, Policy.read_surrogateEscape] at htext
    cases htext
    have hsize := hfits.1
    rw [hlength] at hsize
    rw [string?, Text.restore?_ofBytes, StoredString.bytes, hlength, StoredString.content,
      hterminator]
    simp [number?_of_lt hsize]

theorem constant?_of_constant? {w : SizeWidth} {c : StoredConstant} {a : Constant}
    (hfits : c.Fits w) (hcanonical : c.Canonical)
    (hconstant : c.constant? Policy.surrogateEscape.read = some a) :
    constant? w a = some (c.bytes w) := by
  cases c with
  | nil =>
    cases hconstant
    rfl
  | boolean b =>
    cases hconstant
    rcases hcanonical with rfl | rfl
    · rfl
    · rfl
  | number x =>
    cases hconstant
    rfl
  | string s =>
    obtain ⟨text, htext, rfl⟩ := Option.map_eq_some_iff.mp hconstant
    rw [constant?, string?_of_text? hfits hcanonical htext]
    rfl

theorem instruction?_ofWord (annotate : Bool) (x : UInt32) :
    instruction? (Instruction.ofWord annotate x.toNat) = some (Format.word.bytes x) := by
  have hword : 0 ≤ (Instruction.ofWord annotate x.toNat).word := Int.natCast_nonneg _
  unfold instruction?
  rw [if_pos hword]
  exact number?_word x

theorem mapM_item? {τ α : Type} {F : Format τ α} {item? : α → Option Bytes} {ts : List τ}
    {as : List α} (hitem : ∀ t ∈ ts, ∀ a, F.value? t = some a → item? a = some (F.bytes t))
    (has : ts.mapM F.value? = some as) :
    as.length = ts.length ∧ as.mapM item? = some (ts.map F.bytes) := by
  induction ts generalizing as with
  | nil =>
    cases has
    exact ⟨rfl, rfl⟩
  | cons t rest ih =>
    simp only [List.mapM_cons, Option.bind_eq_bind, Option.bind_eq_some_iff] at has
    obtain ⟨a, ha, others, hothers, hcons⟩ := has
    cases hcons
    have hfirst := hitem t List.mem_cons_self a ha
    obtain ⟨hlength, hrest⟩ := ih (fun u hu => hitem u (List.mem_cons_of_mem t hu)) hothers
    refine ⟨by rw [List.length_cons, List.length_cons, hlength], ?_⟩
    rw [List.mapM_cons, hfirst, hrest]
    rfl

theorem sequence?_of_mapM {τ α : Type} {F : Format τ α} {item? : α → Option Bytes} {ts : List τ}
    {as : List α} (hcount : ts.length < 2 ^ 32)
    (hitem : ∀ t ∈ ts, ∀ a, F.value? t = some a → item? a = some (F.bytes t))
    (has : ts.mapM F.value? = some as) :
    sequence? item? as = some (Bytes.counted F.bytes ts) := by
  obtain ⟨hlength, hitems⟩ := mapM_item? hitem has
  have hnumber : number? 4 as.length = some (Bytes.ofLittleEndian 4 ts.length) := by
    rw [hlength]
    exact number?_of_lt hcount
  unfold sequence?
  rw [hnumber, hitems]
  rfl

theorem function?_of_info? {w : SizeWidth} {annotate : Bool} {f : StoredFunction}
    {info : FunctionInfo} (hfits : f.Fits w) (hcanonical : f.Canonical)
    (hinfo : f.info? annotate Policy.surrogateEscape.read = some info) :
    function? w info = some (f.bytes w) := by
  obtain ⟨hsource, his, hcount, hconstants⟩ := hfits
  obtain ⟨source, htext, constants, hvalues, rfl⟩ := StoredFunction.info?_eq_some_iff.mp hinfo
  have hsourceBytes := string?_of_text? hsource hcanonical.1 htext
  have hinstructions : sequence? instruction?
      (f.instructions.map fun x => Instruction.ofWord annotate x.toNat) =
        some (Bytes.counted Format.word.bytes f.instructions) := by
    apply sequence?_of_mapM (F := Format.instruction annotate) his
    · intro x _ i hi
      cases hi
      exact instruction?_ofWord annotate x
    · exact List.mapM_pure
  have hconstantBytes : sequence? (constant? w) constants =
      some (Bytes.counted (StoredConstant.bytes w) f.constants) := by
    apply sequence?_of_mapM (F := StoredConstant.format w Policy.surrogateEscape.read) hcount
    · intro c hc a ha
      exact constant?_of_constant? (hconstants c hc) (hcanonical.2 c hc) ha
    · exact hvalues
  simp [function?, hsourceBytes, number?_word, number?_byte, hinstructions, hconstantBytes,
    StoredFunction.bytes]

theorem emptyDebug_eq (w : SizeWidth) : emptyDebug = StoredDebug.bytes w ⟨[], [], []⟩ := by
  simp [emptyDebug, StoredDebug.bytes, Bytes.counted]

section

variable {w : SizeWidth} {annotate : Bool}

mutual

theorem prototype?_of_tree? : (p : StoredPrototype) → {tree : Prototype} → p.Fits w →
    p.Canonical → p.tree? annotate Policy.surrogateEscape.read = some tree →
    prototype? w tree = some (p.bytes w)
  | .node f children debug, tree, hfits, hcanonical, htree => by
    obtain ⟨hf, ⟨hcount, hchildren⟩, _⟩ := hfits
    obtain ⟨hfunction, hnested, rfl⟩ := hcanonical
    obtain ⟨info, hinfo, trees, htrees, rfl⟩ := StoredPrototype.tree?_node_eq_some_iff.mp htree
    obtain ⟨hlength, hbodies⟩ := prototypes?_of_treeAll? children hchildren hnested htrees
    have hhead := function?_of_info? hf hfunction hinfo
    have hnumber : number? 4 trees.length = some (Bytes.ofLittleEndian 4 children.length) := by
      rw [hlength]
      exact number?_of_lt hcount
    rw [prototype?, hhead, hnumber, hbodies, emptyDebug_eq w, StoredPrototype.bytes]
    rfl

theorem prototypes?_of_treeAll? : (ps : List StoredPrototype) → {trees : List Prototype} →
    StoredPrototype.FitAll w ps → StoredPrototype.AllCanonical ps →
    StoredPrototype.treeAll? annotate Policy.surrogateEscape.read ps = some trees →
    trees.length = ps.length ∧ prototypes? w trees = some (StoredPrototype.bytesAll w ps)
  | [], trees, _, _, htrees => by
    cases htrees
    exact ⟨rfl, rfl⟩
  | p :: rest, trees, ⟨hp, hrest⟩, ⟨hpc, hrestc⟩, htrees => by
    obtain ⟨tree, htree, others, hothers, rfl⟩ :=
      StoredPrototype.treeAll?_cons_eq_some_iff.mp htrees
    have hfirst := prototype?_of_tree? p hp hpc htree
    obtain ⟨hlength, hbodies⟩ := prototypes?_of_treeAll? rest hrest hrestc hothers
    refine ⟨by rw [List.length_cons, List.length_cons, hlength], ?_⟩
    rw [prototypes?, hfirst, hbodies, StoredPrototype.bytesAll]
    rfl

end

end

end Encoder

/-! ### Decoding and encoding again -/

/-- A chunk decoded from all of a canonical buffer, with malformed bytes kept. -/
structure LosslessDecode (o : Options) (b : Bytes) (c : Chunk) : Prop where
  policy : o.stringErrors = .surrogateEscape
  exhausted : o.allowTrailingData = false
  decoded : (decode o b).1 = .ok c
  canonical : ∃ s : StoredChunk, s.Derives b ∧ s.root.Canonical

theorem LosslessDecode.chunk?_eq {o : Options} {b : Bytes} {c : Chunk} (h : LosslessDecode o b c) :
    Encoder.chunk? c.header c.root = some b := by
  obtain ⟨hpolicy, hexhausted, hdecoded, s', hderives', hcanonical⟩ := h
  obtain ⟨s, hderives, hadmissible, hwidth, _, htree⟩ :=
    (readChunk_eq_ok_iff o .atCount b c).mp hdecoded
  have hsame : s' = s :=
    StoredChunk.bytes_injective hderives'.2 hderives.2 (hderives'.1.trans hderives.1.symm)
  subst hsame
  have htrailing : s'.trailing = [] := by
    rcases hadmissible.trailing with hempty | hallowed
    · exact hempty
    · rw [hexhausted] at hallowed
      cases hallowed
  rw [hpolicy] at htree
  have hbody := Encoder.prototype?_of_tree? s'.root hderives.2 hcanonical htree
  have hbytes : StoredChunk.headerBytes s'.width ++ s'.root.bytes s'.width = b := by
    have hwhole := hderives.1
    rw [StoredChunk.bytes, htrailing, List.append_nil] at hwhole
    exact hwhole
  rw [Encoder.chunk?, hwidth, hbody]
  exact congrArg some hbytes

/-- Encoding what was decoded gives the buffer back, so that two buffers with the same header and
the same tree are one buffer. -/
theorem encode_decode {o : Options} {b : Bytes} {c : Chunk} (h : LosslessDecode o b c) :
    Encoder.chunk? c.header c.root = some b ∧
    ∀ o' b' c', LosslessDecode o' b' c' → c'.header = c.header → c'.root = c.root → b' = b := by
  refine ⟨h.chunk?_eq, ?_⟩
  intro o' b' c' h' hheader hroot
  have hother := h'.chunk?_eq
  rw [hheader, hroot] at hother
  exact Option.some.inj (hother.symm.trans h.chunk?_eq)

/-- A function with constants of every kind, among them absent, empty and malformed strings, and one
function nested in it. -/
def losslessSample : StoredChunk where
  width := .four
  root := .node
    ⟨.present [0x61] 0, 1, 9, 0, 1, 2, 3, [0x0080001E],
      [.nil, .boolean 1, .number ⟨0x8000000000000000⟩, .string .absent, .string (.present [] 0),
        .string (.present [0xC3, 0xA9, 0xED, 0xA0, 0x80] 0)]⟩
    [.node ⟨.absent, 0, 0, 0, 0, 0, 2, [], []⟩ [] ⟨[], [], []⟩] ⟨[], [], []⟩
  trailing := []

def losslessTree : Prototype :=
  .node
    ⟨some "a", 1, 9, 0, 1, 2, 3, [⟨0x0080001E, none⟩],
      [.nil, .boolean true, .number ⟨0x8000000000000000⟩, .string none, .string (some ""),
        .string (some ⟨[.ofNat 0xE9, .ofNat 0xDCED, .ofNat 0xDCA0, .ofNat 0xDC80]⟩)]⟩
    [.node ⟨none, 0, 0, 0, 0, 0, 2, [], []⟩ []]

theorem encode_decode_losslessSample :
    LosslessDecode {} losslessSample.bytes ⟨⟨.four⟩, losslessTree, losslessSample.bytes⟩ ∧
      Encoder.chunk? ⟨.four⟩ losslessTree = some losslessSample.bytes := by
  have hfits : losslessSample.Fits := by
    simp [StoredChunk.Fits, losslessSample, StoredPrototype.Fits, StoredPrototype.FitAll,
      StoredFunction.Fits, StoredConstant.Fits, StoredString.Fits, StoredString.content,
      StoredDebug.Fits, SizeWidth.bytes, maxSize]
  have hcanonical : losslessSample.root.Canonical := by
    simp [losslessSample, StoredPrototype.Canonical, StoredPrototype.AllCanonical,
      StoredFunction.Canonical, StoredConstant.Canonical, StoredString.Canonical]
  have hdecode : LosslessDecode {} losslessSample.bytes
      ⟨⟨.four⟩, losslessTree, losslessSample.bytes⟩ :=
    ⟨rfl, rfl, by decide +kernel, losslessSample, ⟨rfl, hfits⟩, hcanonical⟩
  exact ⟨hdecode, (encode_decode hdecode).1⟩

end LuaBytecode
