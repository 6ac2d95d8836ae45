import LuaBytecode.Proofs.Decoder.PolicyFaults
import LuaBytecode.Proofs.Text.WellFormed

/-!
# What the policy for malformed strings has a part in

The policy decides what the text of a malformed string is, or that there is none. It never decides
how many bytes are passed over, so that runs under two policies go on side by side until one of them
refuses a string. Where neither does, both trees are read from the one derivation of the buffer, and
differ in texts of malformed strings only.
-/

namespace LuaBytecode

/-! ### The texts of a tree -/

def Constant.texts : Constant → List Text
  | .string s => s.toList
  | _ => []

def FunctionInfo.texts (f : FunctionInfo) : List Text :=
  f.source.toList ++ f.constants.flatMap Constant.texts

namespace Prototype

mutual

/-- The source names and the string constants of a prototype and of those nested in it. -/
def texts : Prototype → List Text
  | .node f children => f.texts ++ textsAll children

def textsAll : List Prototype → List Text
  | [] => []
  | p :: rest => texts p ++ textsAll rest

end

end Prototype

/-! ### Texts and the payloads that they are read from -/

section

variable {read : TextReader}

theorem StoredString.texts_of_text? {s : StoredString} {text : Option Text}
    (h : s.text? read = some text) : text.toList.map .ok = s.payloads.map read := by
  cases s with
  | absent =>
    cases h
    rfl
  | present payload terminator =>
    cases hread : read payload with
    | error f => simp [text?, hread, Except.toOption] at h
    | ok x =>
      simp only [text?, hread] at h
      cases h
      rw [payloads, List.map_singleton, hread]
      rfl

theorem StoredConstant.texts_of_constant? {c : StoredConstant} {a : Constant}
    (h : c.constant? read = some a) : a.texts.map .ok = c.payloads.map read := by
  cases c with
  | string s =>
    obtain ⟨text, htext, rfl⟩ := Option.map_eq_some_iff.mp h
    exact s.texts_of_text? htext
  | _ =>
    cases h
    rfl

theorem StoredConstant.texts_of_mapM {cs : List StoredConstant} {as : List Constant}
    (h : cs.mapM (constant? read) = some as) :
    (as.flatMap Constant.texts).map .ok = (cs.flatMap payloads).map read := by
  induction cs generalizing as with
  | nil =>
    cases h
    rfl
  | cons c rest ih =>
    simp only [List.mapM_cons, Option.bind_eq_bind, Option.bind_eq_some_iff] at h
    obtain ⟨a, ha, others, hothers, has⟩ := h
    cases has
    rw [List.flatMap_cons, List.flatMap_cons, List.map_append, List.map_append,
      c.texts_of_constant? ha, ih hothers]

theorem StoredFunction.texts_of_info? {annotate : Bool} {f : StoredFunction} {info : FunctionInfo}
    (h : f.info? annotate read = some info) : info.texts.map .ok = f.payloads.map read := by
  obtain ⟨source, hsource, constants, hconstants, rfl⟩ := info?_eq_some_iff.mp h
  rw [FunctionInfo.texts, payloads, List.map_append, List.map_append,
    f.source.texts_of_text? hsource, StoredConstant.texts_of_mapM hconstants]

namespace StoredPrototype

variable {annotate : Bool}

mutual

/-- The texts of a tree are read from the payloads, one from each. -/
theorem texts_of_tree? : (p : StoredPrototype) → {tree : Prototype} →
    p.tree? annotate read = some tree → tree.texts.map .ok = p.payloads.map read
  | .node f children debug, tree, h => by
    obtain ⟨info, hinfo, trees, htrees, rfl⟩ := tree?_node_eq_some_iff.mp h
    rw [Prototype.texts, payloads, List.map_append, List.map_append, f.texts_of_info? hinfo,
      texts_of_treeAll? children htrees]

theorem texts_of_treeAll? : (ps : List StoredPrototype) → {trees : List Prototype} →
    treeAll? annotate read ps = some trees →
      (Prototype.textsAll trees).map .ok = (payloadsAll ps).map read
  | [], trees, h => by
    cases h
    rfl
  | p :: rest, trees, h => by
    obtain ⟨tree, htree, others, hothers, rfl⟩ := treeAll?_cons_eq_some_iff.mp h
    rw [Prototype.textsAll, payloadsAll, List.map_append, List.map_append, texts_of_tree? p htree,
      texts_of_treeAll? rest hothers]

end

end StoredPrototype

end

/-! ### Two readings of one derivation -/

section

variable {L : Likeness} {read read' : TextReader}

/-- What the two readers make of a payload may stand in each other's place. -/
def ReadAlike (L : Likeness) (read read' : TextReader) (payload : Bytes) : Prop :=
  ∀ x y, read payload = .ok x → read' payload = .ok y → L.text x y

theorem StoredString.rel_of_text? {s : StoredString} {text text' : Option Text}
    (halike : ∀ payload ∈ s.payloads, ReadAlike L read read' payload)
    (h : s.text? read = some text) (h' : s.text? read' = some text') :
    Option.Rel L.text text text' := by
  cases s with
  | absent =>
    cases h
    cases h'
    exact .none
  | present payload terminator =>
    have hpayload := halike payload (List.mem_singleton_self payload)
    cases hread : read payload with
    | error f => simp [text?, hread, Except.toOption] at h
    | ok x =>
      cases hread' : read' payload with
      | error f => simp [text?, hread', Except.toOption] at h'
      | ok y =>
        simp only [text?, hread, hread'] at h h'
        cases h
        cases h'
        exact .some (hpayload x y hread hread')

theorem StoredConstant.like_of_constant? {c : StoredConstant} {a a' : Constant}
    (halike : ∀ payload ∈ c.payloads, ReadAlike L read read' payload)
    (h : c.constant? read = some a) (h' : c.constant? read' = some a') : a.Like L a' := by
  cases c with
  | nil =>
    cases h
    cases h'
    exact .nil
  | boolean b =>
    cases h
    cases h'
    exact .boolean _
  | number x =>
    cases h
    cases h'
    exact .number x
  | string s =>
    obtain ⟨text, htext, rfl⟩ := Option.map_eq_some_iff.mp h
    obtain ⟨text', htext', rfl⟩ := Option.map_eq_some_iff.mp h'
    exact .string (s.rel_of_text? halike htext htext')

theorem StoredConstant.forall₂_like_of_mapM {cs : List StoredConstant} {as as' : List Constant}
    (halike : ∀ payload ∈ cs.flatMap payloads, ReadAlike L read read' payload)
    (h : cs.mapM (constant? read) = some as) (h' : cs.mapM (constant? read') = some as') :
    List.Forall₂ (Constant.Like L) as as' := by
  induction cs generalizing as as' with
  | nil =>
    cases h
    cases h'
    exact .nil
  | cons c rest ih =>
    rw [List.flatMap_cons, List.forall_mem_append] at halike
    simp only [List.mapM_cons, Option.bind_eq_bind, Option.bind_eq_some_iff] at h h'
    obtain ⟨a, ha, others, hothers, has⟩ := h
    obtain ⟨a', ha', others', hothers', has'⟩ := h'
    cases has
    cases has'
    exact .cons (c.like_of_constant? halike.1 ha ha') (ih halike.2 hothers hothers')

variable {annotate : Bool}

theorem StoredFunction.like_of_info? (hinstruction : ∀ i, L.instruction i i)
    {f : StoredFunction} {info info' : FunctionInfo}
    (halike : ∀ payload ∈ f.payloads, ReadAlike L read read' payload)
    (h : f.info? annotate read = some info) (h' : f.info? annotate read' = some info') :
    info.Like L info' := by
  rw [payloads, List.forall_mem_append] at halike
  obtain ⟨source, hsource, constants, hconstants, rfl⟩ := info?_eq_some_iff.mp h
  obtain ⟨source', hsource', constants', hconstants', rfl⟩ := info?_eq_some_iff.mp h'
  exact ⟨f.source.rel_of_text? halike.1 hsource hsource', rfl, rfl, rfl, rfl, rfl, rfl,
    List.forall₂_same.mpr fun i _ => hinstruction i,
    StoredConstant.forall₂_like_of_mapM halike.2 hconstants hconstants'⟩

namespace StoredPrototype

mutual

/-- Readers that make like texts of every payload make like trees. -/
theorem like_of_tree? (hinstruction : ∀ i, L.instruction i i) :
    (p : StoredPrototype) → {tree tree' : Prototype} →
      (∀ payload ∈ p.payloads, ReadAlike L read read' payload) →
        p.tree? annotate read = some tree → p.tree? annotate read' = some tree' →
          tree.Like L tree'
  | .node f children debug, tree, tree', halike, h, h' => by
    rw [payloads, List.forall_mem_append] at halike
    obtain ⟨info, hinfo, trees, htrees, rfl⟩ := tree?_node_eq_some_iff.mp h
    obtain ⟨info', hinfo', trees', htrees', rfl⟩ := tree?_node_eq_some_iff.mp h'
    exact ⟨f.like_of_info? hinstruction halike.1 hinfo hinfo',
      like_of_treeAll? hinstruction children halike.2 htrees htrees'⟩

theorem like_of_treeAll? (hinstruction : ∀ i, L.instruction i i) :
    (ps : List StoredPrototype) → {trees trees' : List Prototype} →
      (∀ payload ∈ payloadsAll ps, ReadAlike L read read' payload) →
        treeAll? annotate read ps = some trees → treeAll? annotate read' ps = some trees' →
          Prototype.LikeAll L trees trees'
  | [], trees, trees', _, h, h' => by
    cases h
    cases h'
    trivial
  | p :: rest, trees, trees', halike, h, h' => by
    rw [payloadsAll, List.forall_mem_append] at halike
    obtain ⟨tree, htree, others, hothers, rfl⟩ := treeAll?_cons_eq_some_iff.mp h
    obtain ⟨tree', htree', others', hothers', rfl⟩ := treeAll?_cons_eq_some_iff.mp h'
    exact ⟨like_of_tree? hinstruction p halike.1 htree htree',
      like_of_treeAll? hinstruction rest halike.2 hothers hothers'⟩

end

end StoredPrototype

end

/-- A reader that agrees with another wherever that one succeeds reads the same tree. -/
theorem StoredPrototype.tree?_of_agrees {annotate : Bool} {read read' : TextReader}
    {p : StoredPrototype} {tree : Prototype} (h : p.tree? annotate read = some tree)
    (hagrees : ∀ payload ∈ p.payloads, ∀ x, read payload = .ok x → read' payload = .ok x) :
    p.tree? annotate read' = some tree := by
  have hreadable := (p.exists_tree?_iff annotate).mp ⟨tree, h⟩
  have hreadable' : ∀ payload ∈ p.payloads, ∃ x, read' payload = .ok x := by
    intro payload hmem
    obtain ⟨x, hx⟩ := hreadable payload hmem
    exact ⟨x, hagrees payload hmem x hx⟩
  obtain ⟨tree', htree'⟩ := (p.exists_tree?_iff annotate).mpr hreadable'
  have hlike : tree.Like .identity tree' := by
    refine StoredPrototype.like_of_tree? (fun _ => rfl) p ?_ h htree'
    intro payload hmem x y hx hy
    exact Except.ok.inj ((hagrees payload hmem x hx).symm.trans hy)
  rw [htree', hlike.eq]

/-! ### Decoders that differ in the policy -/

def Options.withPolicy (o : Options) (p : Policy) : Options := { o with stringErrors := p }

namespace Decoder

open Scan

/-- Texts may be any two; only the faults are compared. -/
def anyTexts : Likeness := ⟨fun _ _ => True, Eq⟩

def sameFaults : Comparison where
  Matches := Eq
  Early _ := False
  matches_self := Comparison.decode_refl

theorem comparable_lossy (w : SizeWidth) (o : Options) {p p' : Policy}
    (hp : p ∈ Policy.lossyPolicies) (hp' : p' ∈ Policy.lossyPolicies) :
    Comparable sameFaults anyTexts ⟨w, o.withPolicy p, .atCount⟩
      ⟨w, o.withPolicy p', .atCount⟩ where
  width := rfl
  maxDepth := rfl
  instruction _ := rfl
  text start field _ payload := by
    obtain ⟨x, hx⟩ := Policy.exists_read_of_lossy hp payload
    obtain ⟨y, hy⟩ := Policy.exists_read_of_lossy hp' payload
    have hread : (o.withPolicy p).stringErrors.read payload = .ok x := hx
    have hread' : (o.withPolicy p').stringErrors.read payload = .ok y := hy
    unfold textOf
    rw [hread, hread']
    exact .pure trivial
  check := checkCount_parallel_self rfl

/-- The comparison of a decoder that refuses malformed strings with one that does not. -/
def refusedStrings : Comparison where
  Matches := Eq
  Early f := ∃ e, f = .decode e ∧ e.kind = .invalidString
  matches_self := Comparison.decode_refl

theorem comparable_strict (w : SizeWidth) (o : Options) :
    Comparable refusedStrings anyTexts ⟨w, o.withPolicy .strict, .atCount⟩
      ⟨w, o.withPolicy .surrogateEscape, .atCount⟩ where
  width := rfl
  maxDepth := rfl
  instruction _ := rfl
  text start field _ payload := by
    have hescape : (o.withPolicy .surrogateEscape).stringErrors.read payload =
        .ok (.ofBytes payload) := Policy.read_surrogateEscape payload
    unfold textOf
    rw [hescape]
    cases hstrict : (o.withPolicy .strict).stringErrors.read payload with
    | ok x => exact .pure trivial
    | error f =>
      obtain ⟨m, rfl⟩ := Policy.exists_malformed (p := .strict) (by decide) hstrict
      exact fun _ _ => .early ⟨_, rfl, rfl⟩
  check := checkCount_parallel_self rfl

end Decoder

section

variable {o : Options} {b : Bytes} {p p' : Policy}

theorem decode_lossy_of_error (hp : p ∈ Policy.lossyPolicies) (hp' : p' ∈ Policy.lossyPolicies)
    {f : Fault} (hf : (decode (o.withPolicy p) b).1 = .error f) :
    (decode (o.withPolicy p') b).1 = .error f := by
  have halike : Scan.Alike Decoder.sameFaults (Chunk.Like Decoder.anyTexts) [] b
      (readChunk (o.withPolicy p) .atCount b 0) (readChunk (o.withPolicy p') .atCount b 0) :=
    readChunk_parallel (fun w => Decoder.comparable_lossy w o hp hp') rfl [] b
  rcases halike.exists_error_right hf with hearly | ⟨g, hg, rfl⟩
  · exact hearly.elim
  · exact hg

theorem decode_lossy_of_ok (hp' : p' ∈ Policy.lossyPolicies) {c : Chunk}
    (hc : (decode (o.withPolicy p) b).1 = .ok c) :
    ∃ (s : StoredChunk) (c' : Chunk), s.Derives b ∧ (decode (o.withPolicy p') b).1 = .ok c' ∧
      c.Like Decoder.anyTexts c' ∧ c.root.texts.map .ok = s.root.payloads.map p.read ∧
      c'.root.texts.map .ok = s.root.payloads.map p'.read := by
  obtain ⟨s, hderives, hadmissible, hwidth, hraw, htree⟩ := (readChunk_eq_ok_iff _ _ b c).mp hc
  have hreadable : ∀ payload ∈ s.root.payloads, ∃ t, p'.read payload = .ok t :=
    fun payload _ => Policy.exists_read_of_lossy hp' payload
  obtain ⟨root, hroot⟩ := (s.root.exists_tree?_iff o.verboseInstructions).mpr hreadable
  have hlike : c.root.Like Decoder.anyTexts root :=
    s.root.like_of_tree? (fun _ => rfl) (fun _ _ _ _ _ _ => trivial) htree hroot
  refine ⟨s, ⟨c.header, root, b⟩, hderives, ?_, ⟨rfl, hlike, hraw⟩, s.root.texts_of_tree? htree,
    s.root.texts_of_tree? hroot⟩
  exact (readChunk_eq_ok_iff _ _ b _).mpr ⟨s, hderives,
    ⟨hadmissible.depth_le, hreadable, hadmissible.trailing⟩, hwidth, rfl, hroot⟩

end

theorem decode_strict_eq_ok_iff (o : Options) (b : Bytes) (c : Chunk) :
    (decode (o.withPolicy .strict) b).1 = .ok c ↔
      (decode (o.withPolicy .surrogateEscape) b).1 = .ok c ∧
        ∀ t ∈ c.root.texts, ∀ x ∈ t.codes, x.isEscapedByte = false := by
  have htexts : ∀ {s : StoredChunk}, s.root.tree? o.verboseInstructions
      Policy.surrogateEscape.read = some c.root → c.root.texts = s.root.payloads.map .ofBytes := by
    intro s htree
    have hread : Policy.surrogateEscape.read = Except.ok ∘ Text.ofBytes :=
      funext Policy.read_surrogateEscape
    have hok := s.root.texts_of_tree? htree
    rw [hread, ← List.map_map] at hok
    exact (List.map_inj_right fun _ _ => Except.ok.inj).mp hok
  constructor
  · intro hc
    obtain ⟨s, hderives, hadmissible, hwidth, hraw, htree⟩ := (readChunk_eq_ok_iff _ _ b c).mp hc
    have hescape : s.root.tree? o.verboseInstructions Policy.surrogateEscape.read = some c.root :=
      s.root.tree?_of_agrees htree fun payload _ x hx =>
        (Policy.read_strict_eq_ok_iff_escape.mp hx).1
    refine ⟨(readChunk_eq_ok_iff _ _ b c).mpr ⟨s, hderives, ⟨hadmissible.depth_le,
      fun payload _ => ⟨_, Policy.read_surrogateEscape payload⟩, hadmissible.trailing⟩, hwidth,
      hraw, hescape⟩, ?_⟩
    intro t ht
    rw [htexts hescape] at ht
    obtain ⟨payload, hmem, rfl⟩ := List.mem_map.mp ht
    obtain ⟨x, hx⟩ := hadmissible.readable payload hmem
    obtain ⟨hread, hclean⟩ := Policy.read_strict_eq_ok_iff_escape.mp hx
    cases (Policy.read_surrogateEscape payload).symm.trans hread
    exact hclean
  · rintro ⟨hc, hclean⟩
    obtain ⟨s, hderives, hadmissible, hwidth, hraw, htree⟩ := (readChunk_eq_ok_iff _ _ b c).mp hc
    have hstrict : ∀ payload ∈ s.root.payloads, ∀ x, Policy.surrogateEscape.read payload = .ok x →
        Policy.strict.read payload = .ok x := by
      intro payload hmem x hx
      cases (Policy.read_surrogateEscape payload).symm.trans hx
      have ht : Text.ofBytes payload ∈ c.root.texts := htexts htree ▸ List.mem_map_of_mem hmem
      exact Policy.read_strict_eq_ok_iff_escape.mpr ⟨hx, hclean _ ht⟩
    exact (readChunk_eq_ok_iff _ _ b c).mpr ⟨s, hderives, ⟨hadmissible.depth_le,
      fun payload hmem => ⟨_, hstrict payload hmem _ (Policy.read_surrogateEscape payload)⟩,
      hadmissible.trailing⟩, hwidth, hraw, s.root.tree?_of_agrees htree hstrict⟩

theorem decode_strict_of_error {o : Options} {b : Bytes} {f : Fault}
    (hf : (decode (o.withPolicy .surrogateEscape) b).1 = .error f) :
    ∃ g, (decode (o.withPolicy .strict) b).1 = .error g ∧
      (g = f ∨ ∃ e, g = .decode e ∧ e.kind = .invalidString) := by
  have halike : Scan.Alike Decoder.refusedStrings (Chunk.Like Decoder.anyTexts) [] b
      (readChunk (o.withPolicy .strict) .atCount b 0)
      (readChunk (o.withPolicy .surrogateEscape) .atCount b 0) :=
    readChunk_parallel (fun w => Decoder.comparable_strict w o) rfl [] b
  exact halike.exists_error_left hf

/-- The policy has a part in the text of malformed strings only. Under those that refuse no string a
decode fails in the same way, or gives trees of the same shape whose texts are read from the same
payloads, one by one, and every policy reads a well-formed payload as its text. The strict policy
accepts what is decoded without keeping a malformed byte, and fails where the others do, unless it
refuses a string before. -/
theorem decode_withPolicy (o : Options) (b : Bytes) :
    (∀ p ∈ Policy.lossyPolicies, ∀ p' ∈ Policy.lossyPolicies,
      (∀ f, (decode (o.withPolicy p) b).1 = .error f →
        (decode (o.withPolicy p') b).1 = .error f) ∧
      ∀ c, (decode (o.withPolicy p) b).1 = .ok c → ∃ (s : StoredChunk) (c' : Chunk),
        s.Derives b ∧ (decode (o.withPolicy p') b).1 = .ok c' ∧
          c.Like Decoder.anyTexts c' ∧ c.root.texts.map .ok = s.root.payloads.map p.read ∧
          c'.root.texts.map .ok = s.root.payloads.map p'.read) ∧
    (∀ (p : Policy) (payload : Bytes) (t : Text), Utf8.encode? t = some payload →
      p.read payload = .ok t) ∧
    (∀ c, (decode (o.withPolicy .strict) b).1 = .ok c ↔
      (decode (o.withPolicy .surrogateEscape) b).1 = .ok c ∧
        ∀ t ∈ c.root.texts, ∀ x ∈ t.codes, x.isEscapedByte = false) ∧
    ∀ f, (decode (o.withPolicy .surrogateEscape) b).1 = .error f →
      ∃ g, (decode (o.withPolicy .strict) b).1 = .error g ∧
        (g = f ∨ ∃ e, g = .decode e ∧ e.kind = .invalidString) := by
  refine ⟨fun p hp p' hp' => ⟨fun f => ?_, fun c => ?_⟩, fun p payload t ht => ?_,
    decode_strict_eq_ok_iff o b, fun f => ?_⟩
  · exact decode_lossy_of_error hp hp'
  · exact decode_lossy_of_ok hp'
  · exact Policy.read_of_encode? ht p
  · exact decode_strict_of_error

def malformedTree (source : Text) : Prototype := .node ⟨some source, 0, 0, 0, 0, 0, 0, [], []⟩ []

/-- The text of the malformed source name is replaced, left out or refused, and a well-formed name is
read by the strict policy too. Where the buffer ends early that policy has refused the name
before. -/
theorem decode_malformedSource_withPolicy :
    (decode (({} : Options).withPolicy .replace) malformedSource).1 =
        .ok ⟨⟨.four⟩, malformedTree ⟨[.ofNat 0xFFFD]⟩, malformedSource⟩ ∧
      (∃ (s : StoredChunk) (c : Chunk), s.Derives malformedSource ∧
        (decode (({} : Options).withPolicy .ignore) malformedSource).1 = .ok c ∧
          (Chunk.mk ⟨.four⟩ (malformedTree ⟨[.ofNat 0xFFFD]⟩) malformedSource).Like
            Decoder.anyTexts c ∧
          [Except.ok ⟨[.ofNat 0xFFFD]⟩] = s.root.payloads.map Policy.replace.read ∧
          c.root.texts.map .ok = s.root.payloads.map Policy.ignore.read) ∧
      Policy.strict.read [0x3D, 0x74] = .ok "=t" ∧
      (¬∃ c, (decode (({} : Options).withPolicy .strict) malformedSource).1 = .ok c) ∧
      ∃ g, (decode (({} : Options).withPolicy .strict) (malformedSource.take 20)).1 = .error g ∧
        (g = .decode ⟨.shortRead "integer" (some "line defined") 4 2, 18⟩ ∨
          ∃ e, g = .decode e ∧ e.kind = .invalidString) := by
  have hreplace : (decode (({} : Options).withPolicy .replace) malformedSource).1 =
      .ok ⟨⟨.four⟩, malformedTree ⟨[.ofNat 0xFFFD]⟩, malformedSource⟩ := by decide +kernel
  have hescape : (decode (({} : Options).withPolicy .surrogateEscape) malformedSource).1 =
      .ok ⟨⟨.four⟩, malformedTree ⟨[.ofNat 0xDCFF]⟩, malformedSource⟩ := by decide +kernel
  have hshort : (decode (({} : Options).withPolicy .surrogateEscape) (malformedSource.take 20)).1 =
      .error (.decode ⟨.shortRead "integer" (some "line defined") 4 2, 18⟩) := by decide +kernel
  have hname : Utf8.encode? "=t" = some [0x3D, 0x74] := by decide +kernel
  obtain ⟨hlossy, hwellFormed, hstrict, _⟩ := decode_withPolicy {} malformedSource
  refine ⟨hreplace, (hlossy .replace (by decide) .ignore (by decide)).2 _ hreplace,
    hwellFormed .strict _ _ hname, ?_,
    (decode_withPolicy {} (malformedSource.take 20)).2.2.2 _ hshort⟩
  rintro ⟨c, hc⟩
  obtain ⟨hsame, hclean⟩ := (hstrict c).mp hc
  cases hescape.symm.trans hsame
  exact absurd (hclean ⟨[.ofNat 0xDCFF]⟩ (by decide) (.ofNat 0xDCFF) (by decide)) (by decide)

end LuaBytecode
