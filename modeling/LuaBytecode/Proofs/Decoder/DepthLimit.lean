import LuaBytecode.Proofs.Decoder.CountChecks
import LuaBytecode.Proofs.Grammar.Preorder
import LuaBytecode.Proofs.Grammar.Unique

/-!
# The limit of nesting

A prototype beyond the limit is refused before anything of it is read. A decode with a lower limit
therefore does what one with a higher limit does, up to the first prototype that is too deep, and
that prototype is the first one in pre-order.
-/

namespace LuaBytecode

/-- The same options with a lower limit of nesting. -/
def Options.limitDepth (o : Options) (limit : Nat) (h : limit ≤ o.maxDepth) : Options :=
  { o with maxDepth := limit, maxDepth_le := Nat.le_trans h o.maxDepth_le }

namespace Decoder

open Scan

theorem readPrototype_zero (d : Decoder) (depth : Nat) (data : Bytes) (offset : Int) :
    d.readPrototype 0 depth data offset =
      ⟨.error (.decode ⟨.nestedTooDeep d.options.maxDepth depth, offset⟩), offset, []⟩ := rfl

/-! ### Two limits -/

/-- The comparison with a decoder of a higher limit, which may read on where this one refuses a
prototype. Other faults are the same, as where counts are refused early. -/
def earlyNesting (limit : Nat) : Comparison :=
  { earlyRefusal with
    Early := fun f => ∃ offset, f = .decode ⟨.nestedTooDeep limit (limit + 1), offset⟩ }

section

variable {o : Options} {limit : Nat} (h : limit ≤ o.maxDepth)

theorem simulates_limitDepth (w : SizeWidth) :
    Simulates (Parallel.simulation (earlyNesting limit)) .identity
      ⟨w, o.limitDepth limit h, .atCount⟩ ⟨w, o, .atCount⟩ where
  width := rfl
  instruction _ := rfl
  string := readString_of_text rfl fun start field _ =>
    textOf_parallel_self (fun _ => rfl) o.stringErrors.read start field
  count := readCount_parallel (checkCount_parallel_self rfl)

/-- The induction is on the levels that the lower limit leaves; the higher one leaves `more`. -/
theorem readPrototype_limitDepth (w : SizeWidth) {levels depth : Nat}
    (hlevels : depth + levels = limit + 1) (more : Nat) :
    Parallel (earlyNesting limit) (Prototype.Like .identity)
      (readPrototype ⟨w, o.limitDepth limit h, .atCount⟩ levels depth)
      (readPrototype ⟨w, o, .atCount⟩ (levels + more) depth) := by
  induction levels generalizing depth with
  | zero =>
    intro before after
    obtain rfl : depth = limit + 1 := hlevels
    rw [readPrototype_zero]
    exact .early ⟨before.length, rfl⟩
  | succ levels ih =>
    rw [Nat.add_right_comm]
    exact (simulates_limitDepth h w).readPrototype_succ (ih (by omega))

end

/-! ### The first prototype that is too deep -/

/-- The prototype is written as the decoder reads it, but for its depth. -/
structure Readable (d : Decoder) (p : StoredPrototype) : Prop where
  fits : p.Fits d.width
  tree : ∃ tree, p.tree? d.options.verboseInstructions d.options.stringErrors.read = some tree

/-- What a decoder reads of a prototype before those nested in it, and what it finds there. -/
structure ReadableNode (d : Decoder) (f : StoredFunction) (children : List StoredPrototype) :
    Prop where
  fits : f.Fits d.width
  info : ∃ info, f.info? d.options.verboseInstructions d.options.stringErrors.read = some info
  count : children.length < 2 ^ 32
  children : ∀ p ∈ children, d.Readable p

/-- The failure is that of the first of the places at the level. -/
def RefusesFirst {α : Type} (d : Decoder) (level : Nat) (places : List Place)
    (r : Except Fault α) : Prop :=
  ∃ place, places.find? (fun place => place.depth = level) = some place ∧
    r = .error (.decode ⟨.nestedTooDeep d.options.maxDepth level, place.start⟩)

variable {d : Decoder}

theorem Readable.node {f : StoredFunction} {children : List StoredPrototype} {debug : StoredDebug}
    (h : d.Readable (.node f children debug)) : d.ReadableNode f children := by
  obtain ⟨⟨hf, ⟨hcount, hfit⟩, _⟩, tree, htree⟩ := h
  obtain ⟨info, hinfo, trees, htrees, _⟩ := StoredPrototype.tree?_eq_some_iff.mp htree
  have hfits := (StoredPrototype.fitAll_iff _ children).mp hfit
  have hread := (exists_mapM_eq_some_iff children).mp ⟨trees, htrees⟩
  exact ⟨hf, ⟨info, hinfo⟩, hcount, fun p hp => ⟨hfits p hp, hread p hp⟩⟩

theorem times_refusesFirst {levels depth : Nat}
    (hone : ∀ (p : StoredPrototype) (before rest : Bytes), d.Readable p → levels ≤ p.depth →
      d.RefusesFirst (depth + levels) (p.places d.width before.length depth)
        (d.readPrototype levels depth (before ++ (p.bytes d.width ++ rest)) before.length).result)
    (ps : List StoredPrototype) (before rest : Bytes) (hps : ∀ p ∈ ps, d.Readable p)
    (hdeep : levels < StoredPrototype.levels ps) :
    d.RefusesFirst (depth + levels) (StoredPrototype.placesAll d.width before.length depth ps)
      (times ps.length (d.readPrototype levels depth)
        (before ++ (StoredPrototype.bytesAll d.width ps ++ rest)) before.length).result := by
  induction ps generalizing before with
  | nil => exact absurd hdeep (Nat.not_lt_zero _)
  | cons p others ih =>
    have hp : d.Readable p := hps p List.mem_cons_self
    rw [StoredPrototype.placesAll, StoredPrototype.bytesAll, List.append_assoc, List.length_cons]
    -- Either the first nests too deep itself, or it is read and none of its places is at the level.
    by_cases hfirst : levels ≤ p.depth
    · obtain ⟨place, hplace, herror⟩ := hone p before _ hp hfirst
      refine ⟨place, ?_, result_bind_of_error herror _⟩
      rw [List.find?_append, hplace, Option.some_or]
    · obtain ⟨tree, htree⟩ := hp.tree
      have hread : (d.readPrototype levels depth).Accepts
          (before ++ (p.bytes d.width ++ (StoredPrototype.bytesAll d.width others ++ rest)))
          before.length tree (before ++ p.bytes d.width).length :=
        (d.recognizes_readPrototype levels depth before _ tree _).mpr
          ⟨_, _, rfl, rfl, p, ⟨hp.fits, Nat.lt_of_not_le hfirst⟩, htree, rfl⟩
      have hshallow : (p.places d.width before.length depth).find?
          (fun place => place.depth = depth + levels) = none := by
        rw [List.find?_eq_none]
        intro place hmem
        have hdepth := StoredPrototype.depth_le_of_mem_places d.width p hmem
        rw [decide_eq_true_eq]
        omega
      have hothers : levels < StoredPrototype.levels others := by
        rw [StoredPrototype.levels] at hdeep
        omega
      obtain ⟨place, hplace, herror⟩ := ih (before ++ p.bytes d.width)
        (fun q hq => hps q (List.mem_cons_of_mem p hq)) hothers
      rw [List.append_assoc] at herror
      rw [List.length_append] at hplace
      refine ⟨place, ?_, ?_⟩
      · rw [List.find?_append, hshallow, Option.none_or, hplace]
      · exact (hread.bind _).1.trans (result_bind_of_error herror _)

theorem readPrototype_of_nested_error {levels depth count : Nat} {info : FunctionInfo} {f : Fault}
    {data : Bytes} {start middle next : Int} (hinfo : d.readInfo.Accepts data start info middle)
    (hcount : (d.readCount "prototype count" (d.width.bytes + prototypeSize)).Accepts data middle
      count next)
    (hnested : (times count (d.readPrototype levels (depth + 1)) data next).result = .error f) :
    (d.readPrototype (levels + 1) depth data start).result = .error f := by
  have hposition : position.Accepts data start start start := ⟨rfl, rfl⟩
  have hrecords : (d.readRecords "prototype count" (d.width.bytes + prototypeSize)
      (d.readPrototype levels (depth + 1)) data middle).result = .error f :=
    (hcount.bind _).1.trans hnested
  exact (hposition.bind _).1.trans ((hinfo.bind _).1.trans (result_bind_of_error hrecords _))

/-- The induction is on the levels that are left: where none are, the prototype is the first. -/
theorem readPrototype_refusesFirst {levels : Nat} (depth : Nat) {p : StoredPrototype}
    (before rest : Bytes) (hp : d.Readable p) (hdeep : levels ≤ p.depth) :
    d.RefusesFirst (depth + levels) (p.places d.width before.length depth)
      (d.readPrototype levels depth (before ++ (p.bytes d.width ++ rest)) before.length).result := by
  induction levels generalizing depth p before rest with
  | zero =>
    obtain ⟨f, children, debug⟩ := p
    exact ⟨⟨_, before.length, depth⟩, List.find?_cons_of_pos (by simp), rfl⟩
  | succ levels ih =>
    obtain ⟨f, children, debug⟩ := p
    obtain ⟨hf, ⟨info, hinfo⟩, hcount, hchildren⟩ := hp.node
    let lead := before ++ f.bytes d.width ++ Bytes.ofLittleEndian 4 children.length
    let after := StoredPrototype.bytesAll d.width children ++ (debug.bytes d.width ++ rest)
    have hlead : lead.length = before.length + (f.bytes d.width).length + 4 := by
      rw [List.length_append, List.length_append, Bytes.length_ofLittleEndian]
    have hread : d.readInfo.Accepts (lead ++ after) before.length info
        (before ++ f.bytes d.width).length := by
      rw [List.append_assoc, List.append_assoc]
      exact (d.recognizes_readInfo before _ info _).mpr ⟨_, _, rfl, rfl, f, hf, hinfo, rfl⟩
    have hcounted : (d.readCount "prototype count" (d.width.bytes + prototypeSize)).Accepts
        (lead ++ after) (before ++ f.bytes d.width).length children.length lead.length := by
      have hfit : children.length * (d.width.bytes + prototypeSize) ≤ after.length := by
        rw [List.length_append]
        exact Nat.le_add_right_of_le (StoredPrototype.le_length_bytesAll d.width children)
      rw [List.append_assoc]
      exact d.readCount_accepts _ hcount hfit
    obtain ⟨place, hplace, herror⟩ := times_refusesFirst
      (fun p before rest hp hdeep => ih (depth + 1) before rest hp hdeep) children lead
      (debug.bytes d.width ++ rest) hchildren hdeep
    have hlevel : depth + 1 + levels = depth + (levels + 1) := by omega
    rw [hlevel] at hplace herror
    have hdata : before ++ ((StoredPrototype.node f children debug).bytes d.width ++ rest) =
        lead ++ after := by
      simp only [lead, after, StoredPrototype.bytes, List.append_assoc]
    refine ⟨place, ?_, ?_⟩
    · rw [StoredPrototype.places, List.find?_cons_of_neg (by simp), ← hlead, hplace]
    · rw [hdata]
      exact readPrototype_of_nested_error hread hcounted herror

end Decoder

section

variable {o : Options} {limit : Nat} (h : limit ≤ o.maxDepth)

open Scan in
theorem readChunk_limitDepth :
    Parallel (Decoder.earlyNesting limit) (Chunk.Like .identity)
      (readChunk (o.limitDepth limit h) .atCount) (readChunk o .atCount) := by
  refine readChunk_parallel_of_root (fun w => ?_) rfl
  have hlevels : o.maxDepth + 1 = limit + 1 + (o.maxDepth - limit) := by omega
  rw [hlevels]
  exact Decoder.readPrototype_limitDepth h w (Nat.zero_add _) _

theorem decode_limitDepth_cases (b : Bytes) :
    (decode (o.limitDepth limit h) b).1 = (decode o b).1 ∨
      ∃ offset, (decode (o.limitDepth limit h) b).1 =
        .error (.decode ⟨.nestedTooDeep limit (limit + 1), offset⟩) := by
  have halike : Scan.Alike (Decoder.earlyNesting limit) (Chunk.Like .identity) [] b
      (readChunk (o.limitDepth limit h) .atCount b 0) (readChunk o .atCount b 0) :=
    readChunk_limitDepth h [] b
  unfold decode
  generalize readChunk (o.limitDepth limit h) .atCount b 0 = r at halike ⊢
  generalize readChunk o .atCount b 0 = r' at halike ⊢
  cases halike with
  | ok _ hvalue => exact .inl (congrArg Except.ok hvalue.eq)
  | error hfault => exact .inl (congrArg Except.error hfault)
  | early hfault =>
    obtain ⟨offset, hfault⟩ := hfault
    exact .inr ⟨offset, congrArg Except.error hfault⟩

end

open Scan in
/-- A chunk that nests too deep, and is otherwise readable, is refused at the first prototype beyond
the limit. -/
theorem decode_refusesFirst {o : Options} {s : StoredChunk} {b : Bytes} (hderives : s.Derives b)
    (htree : ∃ tree, s.root.tree? o.verboseInstructions o.stringErrors.read = some tree)
    (hdeep : o.maxDepth < s.root.depth) :
    Decoder.RefusesFirst ⟨s.width, o, .atCount⟩ (o.maxDepth + 1) s.places (decode o b).1 := by
  obtain ⟨hbytes, hfits⟩ := hderives
  let d : Decoder := ⟨s.width, o, .atCount⟩
  have hheader : readHeader.Accepts b 0 ⟨s.width⟩ (StoredChunk.headerBytes s.width).length := by
    rw [← hbytes, StoredChunk.bytes, List.append_assoc]
    exact (recognizes_readHeader [] _ ⟨s.width⟩ _).mpr ⟨_, _, rfl, rfl, rfl⟩
  obtain ⟨place, hplace, herror⟩ := d.readPrototype_refusesFirst 0
    (StoredChunk.headerBytes s.width) s.trailing ⟨hfits, htree⟩ hdeep
  rw [Nat.zero_add] at hplace herror
  rw [← List.append_assoc, ← StoredChunk.bytes, hbytes] at herror
  exact ⟨place, hplace, (hheader.bind _).1.trans (result_bind_of_error herror _)⟩

/-- A lower limit of nesting changes a decode only by refusing a prototype one level beyond it. A
chunk that decodes under the higher limit decodes under the lower one if its tree is no deeper, and
is otherwise refused where the first prototype beyond the limit starts. -/
theorem decode_limitDepth (o : Options) (b : Bytes) {limit : Nat} (h : limit ≤ o.maxDepth) :
    ((decode (o.limitDepth limit h) b).1 = (decode o b).1 ∨
      ∃ e, (decode (o.limitDepth limit h) b).1 = .error (.decode e) ∧ e.kind = .nestingDepth ∧
        e.expected = some (.number limit) ∧ e.actual = some (.number (limit + 1 : Nat))) ∧
    ∀ c, (decode o b).1 = .ok c →
      ((∃ c', (decode (o.limitDepth limit h) b).1 = .ok c') ↔ c.root.depth ≤ limit) ∧
      (limit < c.root.depth → ∃ (s : StoredChunk) (place : Place), s.Derives b ∧
        s.root.tree? o.verboseInstructions o.stringErrors.read = some c.root ∧
        s.places.find? (fun place => place.depth = limit + 1) = some place ∧
        place.In s.width 0 b ∧
        (decode (o.limitDepth limit h) b).1 =
          .error (.decode ⟨.nestedTooDeep limit (limit + 1), place.start⟩)) := by
  have hcases := decode_limitDepth_cases h b
  refine ⟨?_, ?_⟩
  · rcases hcases with hsame | ⟨offset, hrefused⟩
    · exact .inl hsame
    · exact .inr ⟨_, hrefused, rfl, rfl, rfl⟩
  · intro c hc
    obtain ⟨s, hderives, hadmissible, hwidth, hraw, htree⟩ :=
      (readChunk_eq_ok_iff o .atCount b c).mp hc
    have hdepth : c.root.depth = s.root.depth := s.root.depth_of_tree? htree
    have hrefused : limit < c.root.depth → ∃ place,
        s.places.find? (fun place => place.depth = limit + 1) = some place ∧
          (decode (o.limitDepth limit h) b).1 =
            .error (.decode ⟨.nestedTooDeep limit (limit + 1), place.start⟩) := by
      intro hdeep
      rw [hdepth] at hdeep
      exact decode_refusesFirst (o := o.limitDepth limit h) hderives ⟨_, htree⟩ hdeep
    refine ⟨⟨?_, ?_⟩, ?_⟩
    · intro hshallow
      obtain ⟨c', hc'⟩ := hshallow
      by_contra hdeep
      obtain ⟨place, _, herror⟩ := hrefused (Nat.lt_of_not_le hdeep)
      cases hc'.symm.trans herror
    · intro hshallow
      rw [hdepth] at hshallow
      refine ⟨c, (readChunk_eq_ok_iff _ .atCount b c).mpr ⟨s, hderives, ?_, hwidth, hraw, htree⟩⟩
      exact ⟨hshallow, hadmissible.readable, hadmissible.trailing⟩
    · intro hdeep
      obtain ⟨place, hplace, herror⟩ := hrefused hdeep
      have hin := StoredChunk.in_bytes_of_mem_places (List.mem_of_find?_eq_some hplace)
      rw [hderives.1] at hin
      exact ⟨s, place, hderives, htree, hplace, hin, herror⟩

/-- A function with two nested in it, the second of which holds another. -/
def nestedSample : StoredChunk where
  width := .eight
  root :=
    let leaf (line : UInt32) : StoredFunction := ⟨.absent, line, 0, 0, 0, 0, 2, [], []⟩
    .node (leaf 0)
      [.node (leaf 1) [] ⟨[], [], []⟩,
        .node (leaf 2) [.node (leaf 3) [] ⟨[], [], []⟩] ⟨[], [], []⟩]
      ⟨[], [], []⟩
  trailing := []

def nestedTree : Prototype :=
  let leaf (line : Nat) : FunctionInfo := ⟨none, line, 0, 0, 0, 0, 2, [], []⟩
  .node (leaf 0) [.node (leaf 1) [], .node (leaf 2) [.node (leaf 3) []]]

theorem decode_nestedSample_limitDepth :
    (decode {} nestedSample.bytes).1 = .ok ⟨⟨.eight⟩, nestedTree, nestedSample.bytes⟩ ∧
      (∃ c, (decode (Options.limitDepth {} 2 (by decide)) nestedSample.bytes).1 = .ok c) ∧
      ∃ (s : StoredChunk) (place : Place), s.Derives nestedSample.bytes ∧
        s.places.find? (fun place => place.depth = 2) = some place ∧ place.start = 120 ∧
        (decode (Options.limitDepth {} 1 (by decide)) nestedSample.bytes).1 =
          .error (.decode ⟨.nestedTooDeep 1 2, place.start⟩) := by
  have htwo : 2 ≤ ({} : Options).maxDepth := by decide
  have hone : 1 ≤ ({} : Options).maxDepth := by decide
  have hdecode : (decode {} nestedSample.bytes).1 =
      .ok ⟨⟨.eight⟩, nestedTree, nestedSample.bytes⟩ := by decide +kernel
  have hoffset : (decode (Options.limitDepth {} 1 (by decide)) nestedSample.bytes).1 =
      .error (.decode ⟨.nestedTooDeep 1 2, 120⟩) := by decide +kernel
  have hallowed := (decode_limitDepth {} nestedSample.bytes htwo).2 _ hdecode
  have hrefused := (decode_limitDepth {} nestedSample.bytes hone).2 _ hdecode
  obtain ⟨s, place, hderives, _, hplace, _, herror⟩ := hrefused.2 (by decide)
  have hstart : place.start = 120 := by
    have hboth := herror.symm.trans hoffset
    simp only [Except.error.injEq, Fault.decode.injEq, DecodeError.mk.injEq] at hboth
    omega
  exact ⟨hdecode, hallowed.1.mpr (by decide), s, place, hderives, hplace, hstart, herror⟩

end LuaBytecode
