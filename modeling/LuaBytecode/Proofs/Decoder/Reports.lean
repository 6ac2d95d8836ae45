import LuaBytecode.Proofs.Decoder.Completions
import LuaBytecode.Proofs.Decoder.DepthLimit
import LuaBytecode.Proofs.Grammar.Postorder

/-!
# What a decode notes

A decode notes the header once it is accepted, then every prototype that it completes, and the chunk
at the end. If the tree is complete, the prototypes are those of the tree in post-order. If a
prototype is refused, they are those that were completed before.
-/

namespace LuaBytecode

/-- What is noted of prototypes in their places. -/
def reports (places : List Place) (ps : List Prototype) : List Note :=
  List.zipWith (fun place p => p.report place.start place.depth) places ps

theorem reports_append {places places' : List Place} {ps ps' : List Prototype}
    (h : places.length = ps.length) :
    reports (places ++ places') (ps ++ ps') = reports places ps ++ reports places' ps' :=
  List.zipWith_append h

namespace Decoder

open Scan

variable {d : Decoder}

/-- What is written of the own fields of a prototype is read as they are. -/
theorem readHead_accepts {f : StoredFunction} {info : FunctionInfo} {count : Nat}
    (hfits : f.Fits d.width)
    (hinfo : f.info? d.options.verboseInstructions d.options.stringErrors.read = some info)
    (hcount : count < 2 ^ 32) (before : Bytes) {after : Bytes}
    (hafter : count * (d.width.bytes + prototypeSize) ≤ after.length) :
    d.readHead.Accepts (before ++ f.bytes d.width ++ Bytes.ofLittleEndian 4 count ++ after)
      before.length (info, count)
      (before ++ f.bytes d.width ++ Bytes.ofLittleEndian 4 count).length := by
  have hread : d.readInfo.Accepts
      (before ++ f.bytes d.width ++ Bytes.ofLittleEndian 4 count ++ after) before.length info
      (before ++ f.bytes d.width).length := by
    rw [List.append_assoc, List.append_assoc]
    exact (d.recognizes_readInfo before _ info _).mpr ⟨_, _, rfl, rfl, f, hfits, hinfo, rfl⟩
  have hcounted : (d.readCount "prototype count" (d.width.bytes + prototypeSize)).Accepts
      (before ++ f.bytes d.width ++ (Bytes.ofLittleEndian 4 count ++ after))
      (before ++ f.bytes d.width).length count _ := d.readCount_accepts _ hcount hafter
  rw [← List.append_assoc] at hcounted
  exact accepts_bind_iff.mpr ⟨_, _, hread, accepts_bind_iff.mpr ⟨_, _, hcounted, rfl, rfl⟩⟩

theorem readPrototype_accepts {p : StoredPrototype} {tree : Prototype} {levels : Nat} (depth : Nat)
    (hfits : p.Fits d.width) (hdepth : p.depth < levels)
    (htree : p.tree? d.options.verboseInstructions d.options.stringErrors.read = some tree)
    (before rest : Bytes) :
    (d.readPrototype levels depth).Accepts (before ++ (p.bytes d.width ++ rest)) before.length tree
      (before ++ p.bytes d.width).length :=
  (d.recognizes_readPrototype levels depth before _ tree _).mpr
    ⟨_, rest, rfl, rfl, p, ⟨hfits, hdepth⟩, htree, rfl⟩

theorem times_readPrototype_accepts {ps : List StoredPrototype} {trees : List Prototype}
    {levels : Nat} (depth : Nat) (hfits : StoredPrototype.FitAll d.width ps)
    (hlevels : StoredPrototype.levels ps ≤ levels)
    (htrees : StoredPrototype.treeAll? d.options.verboseInstructions d.options.stringErrors.read
      ps = some trees) (before rest : Bytes) :
    (times ps.length (d.readPrototype levels depth)).Accepts
      (before ++ (StoredPrototype.bytesAll d.width ps ++ rest)) before.length trees
      (before ++ StoredPrototype.bytesAll d.width ps).length := by
  have hread := (d.recognizes_readPrototype levels depth).times ps.length
  have hfits := (StoredPrototype.fitAll_iff _ ps).mp hfits
  have hdepths := (StoredPrototype.levels_le_iff ps levels).mp hlevels
  rw [StoredPrototype.treeAll?_eq_mapM] at htrees
  exact (hread before _ trees _).mpr ⟨_, rest, rfl, rfl, ps,
    ⟨rfl, fun p hp => ⟨hfits p hp, hdepths p hp⟩⟩, htrees, StoredPrototype.bytesAll_eq_flatMap _ ps⟩

mutual

/-- Of a prototype that is read where it was written, the notes are the reports in post-order. -/
theorem notes_readPrototype : (p : StoredPrototype) → {tree : Prototype} → {levels : Nat} →
    (depth : Nat) → p.Fits d.width → p.depth < levels →
    p.tree? d.options.verboseInstructions d.options.stringErrors.read = some tree →
    (before rest : Bytes) →
    (d.readPrototype levels depth (before ++ (p.bytes d.width ++ rest)) before.length).notes =
      reports (p.postorder d.width before.length depth) tree.postorder
  | .node f children debug, tree, levels, depth, hfits, hdepth, htree, before, rest => by
    obtain ⟨levels, rfl⟩ : ∃ more, levels = more + 1 := Nat.exists_eq_add_one.mpr (by omega)
    obtain ⟨info, hinfo, trees, htrees, rfl⟩ := StoredPrototype.tree?_node_eq_some_iff.mp htree
    obtain ⟨hf, ⟨hcount, hnested⟩, hdebug⟩ := hfits
    have hlevels : StoredPrototype.levels children ≤ levels := Nat.le_of_lt_succ hdepth
    let lead := before ++ f.bytes d.width ++ Bytes.ofLittleEndian 4 children.length
    let after := StoredPrototype.bytesAll d.width children ++ (debug.bytes d.width ++ rest)
    have hlead : lead.length = before.length + (f.bytes d.width).length + 4 := by
      rw [List.length_append, List.length_append, Bytes.length_ofLittleEndian]
    have hdata : before ++ ((StoredPrototype.node f children debug).bytes d.width ++ rest) =
        lead ++ after := by
      simp only [lead, after, StoredPrototype.bytes, List.append_assoc]
    have hafter : children.length * (d.width.bytes + prototypeSize) ≤ after.length := by
      rw [List.length_append]
      exact Nat.le_add_right_of_le (StoredPrototype.le_length_bytesAll d.width children)
    have hhead : d.readHead.Accepts (lead ++ after) before.length (info, children.length)
        lead.length := readHead_accepts hf hinfo hcount before hafter
    have hread := times_readPrototype_accepts (depth + 1) hnested hlevels htrees lead
      (debug.bytes d.width ++ rest)
    have hskip : d.skipDebug.Accepts (lead ++ after)
        (lead ++ StoredPrototype.bytesAll d.width children).length ()
        (lead ++ StoredPrototype.bytesAll d.width children ++ debug.bytes d.width).length := by
      rw [← List.append_assoc]
      exact (d.recognizes_skipDebug _ _ () _).mpr ⟨_, rest, rfl, rfl, debug, hdebug, rfl, rfl⟩
    have hchildren := notes_times children (depth + 1) hnested hlevels htrees lead
      (debug.bytes d.width ++ rest)
    have hlength := (StoredPrototype.postorderAll_of_treeAll? d.width children lead.length
      (depth + 1) htrees).length_eq
    rw [hdata, run_of_parts hhead hread hskip, hchildren, StoredPrototype.postorder,
      Prototype.postorder, ← hlead, reports_append hlength]
    rfl

theorem notes_times : (ps : List StoredPrototype) → {trees : List Prototype} → {levels : Nat} →
    (depth : Nat) → StoredPrototype.FitAll d.width ps → StoredPrototype.levels ps ≤ levels →
    StoredPrototype.treeAll? d.options.verboseInstructions d.options.stringErrors.read ps =
      some trees →
    (before rest : Bytes) →
    (times ps.length (d.readPrototype levels depth)
        (before ++ (StoredPrototype.bytesAll d.width ps ++ rest)) before.length).notes =
      reports (StoredPrototype.postorderAll d.width before.length depth ps)
        (Prototype.postorderAll trees)
  | [], _, _, _, _, _, h, _, _ => by
    cases h
    rfl
  | p :: others, _, levels, depth, hfits, hlevels, h, before, rest => by
    obtain ⟨tree, htree, trees, htrees, rfl⟩ := StoredPrototype.treeAll?_cons_eq_some_iff.mp h
    obtain ⟨hp, hothers⟩ := hfits
    rw [StoredPrototype.levels, Nat.max_le] at hlevels
    have hread := readPrototype_accepts depth hp hlevels.1 htree before
      (StoredPrototype.bytesAll d.width others ++ rest)
    have hfirst := notes_readPrototype p depth hp hlevels.1 htree before
      (StoredPrototype.bytesAll d.width others ++ rest)
    have hrest := notes_times others depth hothers hlevels.2 htrees (before ++ p.bytes d.width) rest
    have hlength := (StoredPrototype.postorder_of_tree? d.width p before.length depth
      htree).length_eq
    rw [StoredPrototype.bytesAll, List.append_assoc, List.length_cons, notes_times_succ hread,
      hfirst, StoredPrototype.postorderAll, Prototype.postorderAll, reports_append hlength,
      ← List.length_append, ← hrest, List.append_assoc]

end

end Decoder

/-! ### Decodes -/

open Scan in
/-- The header is noted if it is accepted. -/
theorem Scan.readHeader_cases (data : Bytes) (offset : Int) :
    (∃ header next, readHeader data offset = ⟨.ok header, next, [.header header.sizeWidth]⟩) ∨
      ∃ f, (readHeader data offset).result = .error f ∧ (readHeader data offset).notes = [] ∧
        ∀ e, f = .decode e → e.kind ≠ .trailingData := by
  have hposition : position.Accepts data offset offset offset := ⟨rfl, rfl⟩
  have hpeek : (peek 4).Accepts data offset (data.slice offset (offset + 4)) offset := ⟨rfl, rfl⟩
  rw [readHeader_eq, Inner.position.silent.run_bind hposition,
    (Inner.peek 4).silent.run_bind hpeek]
  generalize data.slice offset (offset + 4) = found
  by_cases hfound : found ≠ Header.signature
  · rw [readSigned, if_pos hfound]
    refine .inr ⟨_, rfl, rfl, fun e he => ?_⟩
    cases he
    simp [DecodeError.kind]
  · have hinner : (skip 4 (some "signature") >>= fun _ => readDialect).Inner :=
      .bind (inner_skip _ _) fun _ => inner_readDialect
    rw [readSigned, if_neg hfound, ← bind_assoc]
    rcases accepts_or_error (skip 4 (some "signature") >>= fun _ => readDialect) data offset with
      ⟨w, next, hw⟩ | ⟨f, hf⟩
    · rw [hinner.silent.run_bind hw]
      exact .inl ⟨⟨w⟩, next, rfl⟩
    · rw [result_bind_of_error hf, notes_bind_of_error hf, hinner.silent]
      exact .inr ⟨f, rfl, rfl, fun e he => hinner.unending data offset e (he ▸ hf)⟩

open Scan in
theorem Decoder.unending_readPrototype (d : Decoder) (levels depth : Nat) :
    (d.readPrototype levels depth).Unending := by
  induction levels generalizing depth with
  | zero =>
    exact .bind Inner.position.unending fun _ =>
      (Inner.failAt _ (by simp [DecodeError.kind])).unending
  | succ levels ih =>
    have htail : ∀ start info children, (d.readTail start depth info children).Unending :=
      fun start info children => .bind d.inner_skipDebug.unending fun _ =>
        .bind (fun _ _ _ h => by cases h) fun _ => (Inner.pure _).unending
    rw [readPrototype_succ]
    exact .bind Inner.position.unending fun start => .bind d.inner_readHead.unending fun head =>
      .bind ((ih (depth + 1)).times head.2) fun children => htail start head.1 children

/-- How many bytes of a chunk come before the trailing ones. -/
def StoredChunk.consumed (s : StoredChunk) : Nat :=
  (headerBytes s.width ++ s.root.bytes s.width).length

/-- What is noted of a decode, by how it ends. -/
inductive Reported (o : Options) (b : Bytes) : Except Fault Chunk → List Note → Prop
  /-- The chunk is returned: all of it is noted. -/
  | chunk {s : StoredChunk} {c : Chunk} (hderives : s.Derives b)
    (hwidth : c.header.sizeWidth = s.width)
    (hplaces : List.Forall₂ (fun place p => place.In s.width 0 b ∧
        place.prototype.tree? o.verboseInstructions o.stringErrors.read = some p)
      s.postorder c.root.postorder) :
    Reported o b (.ok c) (.header s.width :: reports s.postorder c.root.postorder ++
      [.chunk b.length s.consumed])
  /-- The chunk is refused for the bytes after it: all of it is noted but its end. -/
  | trailing {s : StoredChunk} {root : Prototype} {e : DecodeError} (he : e.kind = .trailingData)
    (hderives : s.Derives b) (htrailing : s.trailing ≠ [])
    (hplaces : List.Forall₂ (fun place p => place.In s.width 0 b ∧
        place.prototype.tree? o.verboseInstructions o.stringErrors.read = some p)
      s.postorder root.postorder) :
    Reported o b (.error (.decode e)) (.header s.width :: reports s.postorder root.postorder)
  /-- A prototype is refused: what was completed before is noted, as it ended. -/
  | prototype {w : SizeWidth} {rest : Bytes} {f : Fault} {xs : List Completion}
    (hf : ∀ e, f = .decode e → e.kind ≠ .trailingData)
    (hheader : b = StoredChunk.headerBytes w ++ rest)
    (hcompleted : ∀ x, x ∈ xs ↔ Decoder.Completes ⟨w, o, .atCount⟩ b (o.maxDepth + 1) 0
      (StoredChunk.headerBytes w).length x)
    (hascending : xs.Pairwise fun x y => x.stop < y.stop) :
    Reported o b (.error f) (.header w :: xs.map Completion.report)
  /-- The header is refused. -/
  | header {f : Fault} (hf : ∀ e, f = .decode e → e.kind ≠ .trailingData)
    (hheader : ∀ w rest, b ≠ StoredChunk.headerBytes w ++ rest) : Reported o b (.error f) []

theorem places_of_derives {o : Options} {s : StoredChunk} {b : Bytes} {root : Prototype}
    (hderives : s.Derives b)
    (htree : s.root.tree? o.verboseInstructions o.stringErrors.read = some root) :
    List.Forall₂ (fun place p => place.In s.width 0 b ∧
        place.prototype.tree? o.verboseInstructions o.stringErrors.read = some p)
      s.postorder root.postorder :=
  (List.forall₂_and_left _ _).mpr
    ⟨fun _ hplace => hderives.1 ▸ StoredChunk.in_bytes_of_mem_postorder hplace,
      StoredPrototype.postorder_of_tree? s.width s.root _ 0 htree⟩

/-- What is read of a chunk after its header. -/
def readBody (o : Options) (w : SizeWidth) : Scan Chunk :=
  Decoder.readPrototype ⟨w, o, .atCount⟩ (o.maxDepth + 1) 0 >>= finishChunk o ⟨w⟩

theorem readBody_eq {o : Options} {s : StoredChunk} {root : Prototype} (hfits : s.Fits)
    (hdepth : s.root.depth < o.maxDepth + 1)
    (htree : s.root.tree? o.verboseInstructions o.stringErrors.read = some root) :
    readBody o s.width s.bytes (StoredChunk.headerBytes s.width).length =
      if s.trailing = [] ∨ o.allowTrailingData then
        ⟨.ok ⟨⟨s.width⟩, root, s.bytes⟩, s.consumed,
          reports s.postorder root.postorder ++ [.chunk s.bytes.length s.consumed]⟩
      else ⟨.error (.decode ⟨.unreadBytes s.bytes.length, s.consumed⟩), s.consumed,
        reports s.postorder root.postorder⟩ := by
  let d : Decoder := ⟨s.width, o, .atCount⟩
  have hroot := d.readPrototype_accepts 0 hfits hdepth htree (StoredChunk.headerBytes s.width)
    s.trailing
  have hnotes := d.notes_readPrototype s.root 0 hfits hdepth htree
    (StoredChunk.headerBytes s.width) s.trailing
  have hfinish := finishChunk_append o ⟨s.width⟩ root
    (StoredChunk.headerBytes s.width ++ s.root.bytes s.width) s.trailing
  rw [← List.append_assoc] at hroot hnotes
  have hrun := hroot.run_bind (finishChunk o ⟨s.width⟩)
  rw [hnotes, hfinish] at hrun
  refine Eq.trans hrun ?_
  by_cases hallowed : s.trailing = [] ∨ o.allowTrailingData = true
  · rw [if_pos hallowed, if_pos hallowed]
    rfl
  · rw [if_neg hallowed, if_neg hallowed, List.append_nil]
    rfl

open Scan in
theorem reported_of_header (o : Options) (w : SizeWidth) (rest : Bytes) :
    let b := StoredChunk.headerBytes w ++ rest
    let body := readBody o w b (StoredChunk.headerBytes w).length
    Reported o b body.result (.header w :: body.notes) := by
  intro b body
  let d : Decoder := ⟨w, o, .atCount⟩
  rcases accepts_or_error (d.readPrototype (o.maxDepth + 1) 0) b
    (StoredChunk.headerBytes w).length with ⟨root, stop, hroot⟩ | ⟨f, hf⟩
  · obtain ⟨_, trailing, hrest, _, p, ⟨hfits, hdepth⟩, htree, rfl⟩ :=
      (d.recognizes_readPrototype _ _ _ rest root stop).mp hroot
    let s : StoredChunk := ⟨w, p, trailing⟩
    have hderives : s.Derives b := by
      refine ⟨?_, hfits⟩
      simp only [b, hrest, StoredChunk.bytes, List.append_assoc]
      rfl
    have hplaces := places_of_derives hderives htree
    have hbody : body = _ := hderives.1 ▸ readBody_eq (s := s) hfits hdepth htree
    rw [hbody]
    by_cases hallowed : trailing = [] ∨ o.allowTrailingData = true
    · rw [if_pos hallowed]
      exact .chunk hderives rfl hplaces
    · rw [if_neg hallowed]
      exact .trailing rfl hderives (fun h => hallowed (.inl h)) hplaces
  · have hresult : body.result = .error f := result_bind_of_error hf _
    have hnotes : body.notes = _ := notes_bind_of_error hf _
    have hinside : Inside b (StoredChunk.headerBytes w).length := by
      constructor
      · exact Int.natCast_nonneg _
      · exact Int.ofNat_le.mpr (List.prefix_append _ _).length_le
    obtain ⟨xs, hxs⟩ := Decoder.exists_lists_readPrototype (d := d) (o.maxDepth + 1) 0 hinside
    have hunending : ∀ e, f = .decode e → e.kind ≠ .trailingData := fun e he =>
      d.unending_readPrototype _ _ b _ e (he ▸ hf)
    rw [hresult, hnotes, hxs.notes]
    exact .prototype hunending rfl hxs.mem_iff hxs.ascending

open Scan in
/-- The notes of every decode are those that its end calls for. -/
theorem decode_reported (o : Options) (b : Bytes) : Reported o b (decode o b).1 (decode o b).2 := by
  change Reported o b (readChunk o .atCount b 0).result (readChunk o .atCount b 0).notes
  rcases readHeader_cases b 0 with ⟨⟨w⟩, next, hheader⟩ | ⟨f, hf, hnotes, hending⟩
  · have haccepts : readHeader.Accepts b 0 ⟨w⟩ next := by
      rw [Accepts, hheader]
      exact ⟨rfl, rfl⟩
    obtain ⟨_, rest, rfl, rfl, rfl⟩ := (recognizes_readHeader [] b ⟨w⟩ next).mp haccepts
    have hrun : readChunk o .atCount (StoredChunk.headerBytes w ++ rest) 0 = _ :=
      bind_of_ok hheader _
    rw [hrun]
    exact reported_of_header o w rest
  · rw [readChunk, result_bind_of_error hf, notes_bind_of_error hf, hnotes]
    refine .header hending fun w rest hb => ?_
    have haccepts := (recognizes_readHeader [] b ⟨w⟩ _).mpr ⟨_, rest, hb, rfl, rfl⟩
    exact absurd haccepts (not_accepts_of_error hf)

end LuaBytecode
