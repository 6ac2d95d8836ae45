import LuaBytecode.Export
import LuaBytecode.Proofs.Decoder.StringPolicies
import LuaBytecode.Proofs.Json.Ascii

/-!
# Exported trees

The JSON of a chunk is made of the texts its strings are read as, of ASCII names, and of finite
numbers: one that is not finite is exported as a word. Its text therefore tells the tree. What it
does not tell is whether a character above the basic plane was read as such or as its two
surrogates, and there are such surrogates under one policy only.
-/

namespace LuaBytecode

open Json (Holds HoldsItems HoldsMembers)

/-! ### What exported values are made of -/

/-- What holds of finite numbers, of ASCII texts and of the texts that are read holds of all numbers
and texts of an exported tree. -/
structure Exportable (number : Binary64 → Prop) (text : Text → Prop) (read : TextReader) :
    Prop where
  finite : ∀ x, x.isFinite = true → number x
  ascii : ∀ t, t.isAscii = true → text t
  readable : ∀ payload t, read payload = .ok t → text t

section

variable {number : Binary64 → Prop} {text : Text → Prop} {read : TextReader} {annotate : Bool}

theorem Opcode.isAscii_name {n : Int} {o : Opcode} (h : lookup? n = some o) :
    o.name.isAscii = true := by
  have htable : ∀ entry ∈ table, (Text.ofString entry.1).isAscii = true := by decide
  unfold lookup? at h
  split at h
  · cases h
  · obtain ⟨entry, hentry, rfl⟩ := Option.map_eq_some_iff.mp h
    exact htable entry (List.mem_of_getElem? hentry)

theorem Constant.isAscii_typeName (c : Constant) : c.typeName.isAscii = true := by
  have hnames : ∀ name ∈ ["nil", "boolean", "number", "string"],
      (Text.ofString name).isAscii = true := by decide
  cases c <;> exact hnames _ (by simp)

theorem OperandFormat.isAscii_name (f : OperandFormat) : f.name.isAscii = true := by
  cases f <;> decide

namespace Exportable

section

variable (h : Exportable number text read)

include h

theorem holds_text? {s : StoredString} {t : Option Text} (ht : s.text? read = some t) :
    (Json.ofText? t).Holds number text := by
  cases s with
  | absent =>
    cases ht
    trivial
  | present payload terminator =>
    cases hread : read payload with
    | error f =>
      simp only [StoredString.text?, hread] at ht
      cases ht
    | ok x =>
      simp only [StoredString.text?, hread] at ht
      cases ht
      exact h.readable payload x hread

theorem holds_constant? {s : StoredConstant} {c : Constant} (hc : s.constant? read = some c) :
    c.toJson.Holds number text := by
  have hvalue : c.valueJson.Holds number text := by
    cases s with
    | nil =>
      cases hc
      trivial
    | boolean b =>
      cases hc
      trivial
    | number x =>
      cases hc
      simp only [Constant.valueJson]
      cases hx : x.isFinite with
      | true => exact h.finite x hx
      | false => exact h.ascii _ x.isAscii_toText
    | string s =>
      obtain ⟨t, ht, rfl⟩ := Option.map_eq_some_iff.mp hc
      exact h.holds_text? ht
  exact ⟨h.ascii _ (by decide), h.ascii _ c.isAscii_typeName, h.ascii _ (by decide), hvalue,
    trivial⟩

theorem holds_constants? {ss : List StoredConstant} {cs : List Constant}
    (hcs : ss.mapM (StoredConstant.constant? read) = some cs) :
    HoldsItems number text (cs.map Constant.toJson) := by
  induction ss generalizing cs with
  | nil =>
    cases hcs
    trivial
  | cons s rest ih =>
    simp only [List.mapM_cons, Option.bind_eq_bind, Option.bind_eq_some_iff] at hcs
    obtain ⟨c, hc, others, hothers, hcs⟩ := hcs
    cases hcs
    exact ⟨h.holds_constant? hc, ih hothers⟩

theorem holds_ofWord (word : Int) :
    HoldsMembers number text (Instruction.ofWord annotate word).toMembers := by
  have hraw : text "raw" := h.ascii _ (by decide)
  cases annotate with
  | false => exact ⟨hraw, trivial, trivial⟩
  | true =>
    have hname : (Json.ofText? ((Opcode.lookup? (word % 64).toNat).map (·.name))).Holds number
        text := by
      cases hopcode : Opcode.lookup? (word % 64).toNat with
      | none => trivial
      | some o => exact h.ascii _ (Opcode.isAscii_name hopcode)
    have hformat : (Json.ofText? ((Opcode.lookup? (word % 64).toNat).map (·.format.name))).Holds
        number text := by
      cases hopcode : Opcode.lookup? (word % 64).toNat with
      | none => trivial
      | some o => exact h.ascii _ o.format.isAscii_name
    exact ⟨hraw, trivial, h.ascii _ (by decide), trivial, h.ascii _ (by decide), hname,
      h.ascii _ (by decide), hformat, trivial⟩

theorem holds_info? {f : StoredFunction} {info : FunctionInfo}
    (hinfo : f.info? annotate read = some info) {children : List Json}
    (hchildren : HoldsItems number text children) :
    HoldsMembers number text (info.toMembers children) := by
  obtain ⟨source, hsource, constants, hconstants, rfl⟩ :=
    StoredFunction.info?_eq_some_iff.mp hinfo
  have hinstructions : HoldsItems number text ((f.instructions.map fun x =>
      Instruction.ofWord annotate x.toNat).map fun i => .object i.toMembers) := by
    rw [Json.holdsItems_iff]
    intro item hitem
    obtain ⟨i, hi, rfl⟩ := List.mem_map.mp hitem
    obtain ⟨x, _, rfl⟩ := List.mem_map.mp hi
    exact h.holds_ofWord _
  exact ⟨h.ascii _ (by decide), h.holds_text? hsource, h.ascii _ (by decide), trivial,
    h.ascii _ (by decide), trivial, h.ascii _ (by decide), trivial, h.ascii _ (by decide), trivial,
    h.ascii _ (by decide), trivial, h.ascii _ (by decide), trivial, h.ascii _ (by decide),
    hinstructions, h.ascii _ (by decide), h.holds_constants? hconstants, h.ascii _ (by decide),
    hchildren, trivial⟩

end

mutual

theorem holds_tree? (h : Exportable number text read) : (p : StoredPrototype) →
    {tree : Prototype} → p.tree? annotate read = some tree → tree.toJson.Holds number text
  | .node f children debug, tree, htree => by
    obtain ⟨info, hinfo, trees, htrees, rfl⟩ := StoredPrototype.tree?_node_eq_some_iff.mp htree
    exact h.holds_info? hinfo (holds_treeAll? h children htrees)

theorem holds_treeAll? (h : Exportable number text read) : (ps : List StoredPrototype) →
    {trees : List Prototype} → StoredPrototype.treeAll? annotate read ps = some trees →
      HoldsItems number text (Prototype.toJsonAll trees)
  | [], trees, htrees => by
    cases htrees
    trivial
  | p :: rest, trees, htrees => by
    obtain ⟨tree, htree, others, hothers, rfl⟩ :=
      StoredPrototype.treeAll?_cons_eq_some_iff.mp htrees
    exact ⟨holds_tree? h p htree, holds_treeAll? h rest hothers⟩

end

end Exportable

end

theorem Bytes.isAscii_hex (data : Bytes) : data.hex.isAscii = true := by
  refine Text.isAscii_concat ?_
  intro t ht
  obtain ⟨b, _, rfl⟩ := List.mem_map.mp ht
  exact Text.isAscii_ofHex 2 b.toNat

/-- What a decoded chunk is exported as. -/
theorem Exportable.holds_decode {number : Binary64 → Prop} {text : Text → Prop} {o : Options}
    (h : Exportable number text o.stringErrors.read) {b : Bytes} {c : Chunk}
    (hc : (decode o b).1 = .ok c) (includeRaw : Bool) :
    (c.toJson includeRaw).Holds number text := by
  obtain ⟨s, _, _, _, _, htree⟩ := (readChunk_eq_ok_iff _ _ b c).mp hc
  have hroot := h.holds_tree? s.root htree
  have hheader : c.header.toJson.Holds number text :=
    ⟨h.ascii _ (by decide), trivial, h.ascii _ (by decide), trivial, h.ascii _ (by decide), trivial,
      h.ascii _ (by decide), trivial, h.ascii _ (by decide), trivial, h.ascii _ (by decide),
      trivial, h.ascii _ (by decide), trivial, h.ascii _ (by decide), trivial, trivial⟩
  have hraw : HoldsMembers number text
      (if includeRaw then [("raw", .string c.raw.hex)] else []) := by
    cases includeRaw with
    | false => trivial
    | true => exact ⟨h.ascii _ (by decide), h.ascii _ c.raw.isAscii_hex, trivial⟩
  exact ⟨h.ascii _ (by decide), hheader, h.ascii _ (by decide), hroot, hraw⟩

/-- An exported tree has no number that is not finite. -/
theorem finite_toJson {o : Options} {b : Bytes} {c : Chunk} (hc : (decode o b).1 = .ok c)
    (includeRaw : Bool) : (c.toJson includeRaw).Finite :=
  Exportable.holds_decode ⟨fun _ => id, fun _ _ => trivial, fun _ _ _ => trivial⟩ hc includeRaw

theorem plain_toJson {o : Options} (ho : o.stringErrors ≠ .surrogatePass) {b : Bytes} {c : Chunk}
    (hc : (decode o b).1 = .ok c) (includeRaw : Bool) : (c.toJson includeRaw).Plain :=
  Exportable.holds_decode ⟨fun _ _ => trivial, fun _ => Text.hasHighSurrogate_of_isAscii,
    fun _ _ => Policy.hasHighSurrogate_of_read ho⟩ hc includeRaw

/-! ### What the printed text tells -/

/-- The tree is there with the bytes of the chunk and without them. -/
theorem toJson_of_utf16 {c c' : Chunk} {includeRaw includeRaw' : Bool}
    (h : (c.toJson includeRaw).utf16 = (c'.toJson includeRaw').utf16) :
    (c.toJson false).utf16 = (c'.toJson false).utf16 := by
  obtain ⟨hheader, hmore⟩ := List.cons.inj (Json.object.inj h)
  obtain ⟨hroot, _⟩ := List.cons.inj hmore
  have hmembers : Json.utf16Members [("header", c.header.toJson), ("root", c.root.toJson)] =
      Json.utf16Members [("header", c'.header.toJson), ("root", c'.root.toJson)] := by
    simp only [Json.utf16Members]
    rw [hheader, hroot]
  exact congrArg Json.object hmembers

namespace Json.Layout

variable {maxWidth width : Int} {layout : Layout}

/-- A machine integer holds the width, and there is memory for it. -/
def Fits (maxWidth width : Int) : Prop :=
  -0x8000000000000000 ≤ width ∧ width < 0x8000000000000000 ∧ width ≤ maxWidth

instance (maxWidth width : Int) : Decidable (Fits maxWidth width) :=
  inferInstanceAs (Decidable (_ ∧ _ ∧ _))

theorem ofWidth_eq_ok_iff :
    ofWidth maxWidth width = .ok layout ↔ Fits maxWidth width ∧ layout = .indented width := by
  unfold ofWidth Fits
  by_cases hrange : width < -0x8000000000000000 ∨ 0x8000000000000000 ≤ width
  · rw [if_pos hrange]
    refine ⟨nofun, ?_⟩
    rintro ⟨hfits, _⟩
    omega
  · rw [if_neg hrange]
    by_cases hmemory : maxWidth < width
    · rw [if_pos hmemory]
      refine ⟨nofun, ?_⟩
      rintro ⟨hfits, _⟩
      omega
    · rw [if_neg hmemory, Except.ok.injEq, eq_comm, and_iff_right]
      omega

theorem breaksLines_of_ofWidth (h : ofWidth maxWidth width = .ok layout) :
    layout.BreaksLines := by
  obtain ⟨_, rfl⟩ := ofWidth_eq_ok_iff.mp h
  exact breaksLines_indented width

end Json.Layout

/-- The text printed for a decoded chunk tells its tree, with each string as its code units. Under
the policies that leave surrogates unpaired it tells the strings themselves. -/
theorem print_toJson_eq_iff {o o' : Options} {b b' : Bytes} {c c' : Chunk}
    (hc : (decode o b).1 = .ok c) (hc' : (decode o' b').1 = .ok c') {maxWidth width : Int}
    {layout : Json.Layout} (hlayout : Json.Layout.ofWidth maxWidth width = .ok layout)
    (includeRaw includeRaw' : Bool) :
    (Json.print layout (c.toJson includeRaw) = Json.print layout (c'.toJson includeRaw') ↔
      (c.toJson includeRaw).utf16 = (c'.toJson includeRaw').utf16) ∧
    ((c.toJson false).utf16 ≠ (c'.toJson false).utf16 →
      Json.print layout (c.toJson includeRaw) ≠ Json.print layout (c'.toJson includeRaw')) ∧
    (o.stringErrors ≠ .surrogatePass → o'.stringErrors ≠ .surrogatePass →
      c.toJson false ≠ c'.toJson false →
        Json.print layout (c.toJson includeRaw) ≠ Json.print layout (c'.toJson includeRaw')) := by
  have hprint := Json.print_eq_iff (Json.Layout.breaksLines_of_ofWidth hlayout)
    (finite_toJson hc includeRaw) (finite_toJson hc' includeRaw')
  refine ⟨hprint, fun hdiffer htexts => ?_, fun ho ho' hdiffer htexts => ?_⟩
  · exact hdiffer (toJson_of_utf16 (hprint.mp htexts))
  · exact hdiffer (Json.utf16_inj _ (plain_toJson ho hc false) (plain_toJson ho' hc' false)
      (toJson_of_utf16 (hprint.mp htexts)))

theorem source_of_toJson {s t : Text} {data data' : Bytes}
    (h : (Chunk.mk ⟨.four⟩ (malformedTree s) data).toJson false =
      (Chunk.mk ⟨.four⟩ (malformedTree t) data').toJson false) : s = t := by
  simpa [Chunk.toJson, Prototype.toJson, malformedTree, FunctionInfo.toMembers, Json.ofText?]
    using h

/-- The malformed source name is not exported as the same string if it is replaced and if its byte
is kept as a surrogate. -/
theorem print_malformedSource :
    Json.print (.indented 2) ((Chunk.mk ⟨.four⟩ (malformedTree ⟨[.ofNat 0xFFFD]⟩)
        malformedSource).toJson false) ≠
      Json.print (.indented 2) ((Chunk.mk ⟨.four⟩ (malformedTree ⟨[.ofNat 0xDCFF]⟩)
        malformedSource).toJson false) := by
  have hreplace : (decode { stringErrors := .replace } malformedSource).1 =
      .ok ⟨⟨.four⟩, malformedTree ⟨[.ofNat 0xFFFD]⟩, malformedSource⟩ := by decide +kernel
  have hescape : (decode { stringErrors := .surrogateEscape } malformedSource).1 =
      .ok ⟨⟨.four⟩, malformedTree ⟨[.ofNat 0xDCFF]⟩, malformedSource⟩ := by decide +kernel
  have hlayout : Json.Layout.ofWidth 2 2 = .ok (.indented 2) := rfl
  refine (print_toJson_eq_iff hreplace hescape hlayout false false).2.2 (by decide) (by decide) ?_
  intro h
  exact absurd (source_of_toJson h) (by decide)

/-- A chunk without instructions and constants whose source name has the given bytes. -/
def namedChunk (source : Bytes) : Bytes :=
  StoredChunk.headerBytes .four ++ Bytes.ofLittleEndian 4 (source.length + 1) ++ source ++
    List.replicate 37 0x00

/-- A pair of surrogates that is passed on is printed as the character it would encode. -/
theorem print_toJson_not_injective :
    ¬ ∀ (o o' : Options) (b b' : Bytes) (c c' : Chunk) (maxWidth width : Int)
      (layout : Json.Layout), (decode o b).1 = .ok c → (decode o' b').1 = .ok c' →
        Json.Layout.ofWidth maxWidth width = .ok layout → c.toJson false ≠ c'.toJson false →
          Json.print layout (c.toJson false) ≠ Json.print layout (c'.toJson false) := by
  intro hinjective
  have hpair : (decode { stringErrors := .surrogatePass }
      (namedChunk [0xED, 0xA0, 0x80, 0xED, 0xB0, 0x80])).1 =
        .ok ⟨⟨.four⟩, malformedTree ⟨[.ofNat 0xD800, .ofNat 0xDC00]⟩,
          namedChunk [0xED, 0xA0, 0x80, 0xED, 0xB0, 0x80]⟩ := by decide +kernel
  have hcharacter : (decode {} (namedChunk [0xF0, 0x90, 0x80, 0x80])).1 =
      .ok ⟨⟨.four⟩, malformedTree ⟨[.ofNat 0x10000]⟩,
        namedChunk [0xF0, 0x90, 0x80, 0x80]⟩ := by decide +kernel
  refine hinjective _ _ _ _ _ _ 2 2 _ hpair hcharacter rfl ?_ (by decide +kernel)
  intro h
  exact absurd (source_of_toJson h) (by decide)

end LuaBytecode
