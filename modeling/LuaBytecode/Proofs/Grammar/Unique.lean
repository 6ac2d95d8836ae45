import LuaBytecode.Proofs.Grammar.Recognition

/-!
# A buffer is read in one way

Every format of the grammar is unambiguous, so that a buffer is the bytes of at most one stored
chunk. With the language that the decoder recognizes this says what a decode returns: the tree of
the one stored chunk, if it nests no deeper than allowed and all its strings can be read.
-/

namespace LuaBytecode

theorem Format.Unambiguous.counted {τ α : Type} {F : Format τ α} (h : F.Unambiguous) :
    F.counted.Unambiguous := by
  intro ts us x y ht hu heq
  obtain ⟨hts, htfits⟩ := ht
  obtain ⟨hus, hufits⟩ := hu
  simp only [Format.counted, Bytes.counted, List.append_assoc] at heq
  obtain ⟨hlength, heq⟩ := Format.count_unambiguous _ _ _ _ hts hus heq
  exact h.repeated us.length ts us x y ⟨hlength, htfits⟩ ⟨rfl, hufits⟩ heq

theorem StoredString.content_injective {s t : StoredString} (h : s.content = t.content) :
    s = t := by
  cases s with
  | absent =>
    cases t with
    | absent => rfl
    | present payload terminator => simp [content] at h
  | present payload terminator =>
    cases t with
    | absent => simp [content] at h
    | present payload' terminator' =>
      obtain ⟨hpayload, hterminator⟩ := List.append_inj' h rfl
      rw [hpayload, (List.cons.inj hterminator).1]

theorem StoredString.unambiguous (w : SizeWidth) (read : TextReader) :
    (format w read).Unambiguous := by
  intro s t x y hs ht heq
  simp only [format, bytes, List.append_assoc] at heq
  obtain ⟨hlength, heq⟩ := Format.size_unambiguous w _ _ _ _ hs ht heq
  obtain ⟨hcontent, hrest⟩ := List.append_inj heq hlength
  exact ⟨content_injective hcontent, hrest⟩

theorem StoredConstant.unambiguous (w : SizeWidth) (read : TextReader) :
    (format w read).Unambiguous := by
  intro c d x y hc hd heq
  obtain ⟨htag, heq⟩ := List.cons.inj heq
  cases c with
  | nil =>
    cases d with
    | nil => exact ⟨rfl, heq⟩
    | _ => simp [tag] at htag
  | boolean b =>
    cases d with
    | boolean b' =>
      obtain ⟨rfl, hrest⟩ := List.cons.inj heq
      exact ⟨rfl, hrest⟩
    | _ => simp [tag] at htag
  | number u =>
    cases d with
    | number v =>
      obtain ⟨rfl, hrest⟩ := Format.double_unambiguous u v x y trivial trivial heq
      exact ⟨rfl, hrest⟩
    | _ => simp [tag] at htag
  | string s =>
    cases d with
    | string t =>
      obtain ⟨rfl, hrest⟩ := StoredString.unambiguous w read s t x y hc hd heq
      exact ⟨rfl, hrest⟩
    | _ => simp [tag] at htag

theorem StoredLocal.unambiguous (w : SizeWidth) : (format w).Unambiguous := by
  intro l l' x y hfits hfits' heq
  obtain ⟨name, start, stop⟩ := l
  obtain ⟨name', start', stop'⟩ := l'
  simp only [format, bytes, List.append_assoc] at heq
  obtain ⟨hname, heq⟩ := StoredString.unambiguous w Policy.strict.read _ _ _ _ hfits hfits' heq
  obtain ⟨hstart, heq⟩ := Format.word_unambiguous _ _ _ _ trivial trivial heq
  obtain ⟨hstop, hrest⟩ := Format.word_unambiguous _ _ _ _ trivial trivial heq
  subst hname hstart hstop
  exact ⟨rfl, hrest⟩

theorem StoredFunction.unambiguous (w : SizeWidth) (annotate : Bool) (read : TextReader) :
    (format w annotate read).Unambiguous := by
  intro f g x y hf hg heq
  obtain ⟨source, first, last, upvalues, parameters, vararg, stack, is, cs⟩ := f
  obtain ⟨source', first', last', upvalues', parameters', vararg', stack', is', cs'⟩ := g
  obtain ⟨hs, his, hcs⟩ := hf
  obtain ⟨hs', his', hcs'⟩ := hg
  simp only [format, bytes, List.append_assoc] at heq
  obtain ⟨hsource, heq⟩ := StoredString.unambiguous w read _ _ _ _ hs hs' heq
  obtain ⟨hfirst, heq⟩ := Format.word_unambiguous _ _ _ _ trivial trivial heq
  obtain ⟨hlast, heq⟩ := Format.word_unambiguous _ _ _ _ trivial trivial heq
  obtain ⟨hflags, heq⟩ := List.append_inj heq rfl
  obtain ⟨hinstructions, heq⟩ := Format.word_unambiguous.counted _ _ _ _ ⟨his, fun _ _ => trivial⟩
    ⟨his', fun _ _ => trivial⟩ heq
  obtain ⟨hconstants, hrest⟩ := (StoredConstant.unambiguous w read).counted _ _ _ _ hcs hcs' heq
  cases hflags
  subst hsource hfirst hlast hinstructions hconstants
  exact ⟨rfl, hrest⟩

theorem StoredDebug.unambiguous (w : SizeWidth) : (format w).Unambiguous := by
  intro d d' x y hfits hfits' heq
  obtain ⟨lines, locals, names⟩ := d
  obtain ⟨lines', locals', names'⟩ := d'
  obtain ⟨hl, hls, hns⟩ := hfits
  obtain ⟨hl', hls', hns'⟩ := hfits'
  simp only [format, bytes, List.append_assoc] at heq
  obtain ⟨hlines, heq⟩ := Format.word_unambiguous.counted _ _ _ _ ⟨hl, fun _ _ => trivial⟩
    ⟨hl', fun _ _ => trivial⟩ heq
  obtain ⟨hlocals, heq⟩ := (StoredLocal.unambiguous w).counted _ _ _ _ hls hls' heq
  obtain ⟨hnames, hrest⟩ :=
    (StoredString.unambiguous w Policy.strict.read).counted _ _ _ _ hns hns' heq
  subst hlines hlocals hnames
  exact ⟨rfl, hrest⟩

namespace StoredPrototype

theorem format_unambiguous (w : SizeWidth) (annotate : Bool) (read : TextReader) (n : Nat) :
    (format w annotate read n).Unambiguous := by
  induction n with
  | zero =>
    intro p q x y hp _ _
    obtain ⟨_, hdepth⟩ := hp
    exact absurd hdepth (Nat.not_lt_zero _)
  | succ n ih =>
    intro p q x y hp hq heq
    obtain ⟨f, ps, d⟩ := p
    obtain ⟨g, qs, e⟩ := q
    obtain ⟨⟨hf, ⟨hps, hpfit⟩, hd⟩, hpdepth⟩ := hp
    obtain ⟨⟨hg, ⟨hqs, hqfit⟩, he⟩, hqdepth⟩ := hq
    rw [fitAll_iff] at hpfit hqfit
    have hpdepths := (levels_le_iff ps n).mp (Nat.le_of_lt_succ hpdepth)
    have hqdepths := (levels_le_iff qs n).mp (Nat.le_of_lt_succ hqdepth)
    simp only [format, bytes_node, List.append_assoc] at heq
    obtain ⟨hfunction, heq⟩ := StoredFunction.unambiguous w annotate read _ _ _ _ hf hg heq
    obtain ⟨hchildren, heq⟩ := ih.counted _ _ _ _ ⟨hps, fun p hp => ⟨hpfit p hp, hpdepths p hp⟩⟩
      ⟨hqs, fun q hq => ⟨hqfit q hq, hqdepths q hq⟩⟩ heq
    obtain ⟨hdebug, hrest⟩ := StoredDebug.unambiguous w _ _ _ _ hd he heq
    subst hfunction hchildren hdebug
    exact ⟨rfl, hrest⟩

/-- The depth of a term is no part of what is written, so terms of any depths are told apart. -/
theorem eq_of_bytes_append_eq {w : SizeWidth} {p q : StoredPrototype} {x y : Bytes} (hp : p.Fits w)
    (hq : q.Fits w) (h : p.bytes w ++ x = q.bytes w ++ y) : p = q ∧ x = y :=
  format_unambiguous w false Policy.strict.read (max p.depth q.depth + 1) p q x y
    ⟨hp, Nat.lt_succ_of_le (Nat.le_max_left _ _)⟩ ⟨hq, Nat.lt_succ_of_le (Nat.le_max_right _ _)⟩ h

end StoredPrototype

theorem StoredChunk.headerBytes_injective {v w : SizeWidth} {x y : Bytes}
    (h : headerBytes v ++ x = headerBytes w ++ y) : v = w ∧ x = y := by
  obtain ⟨hheader, hrest⟩ := List.append_inj h rfl
  refine ⟨?_, hrest⟩
  cases v <;> cases w <;> first | rfl | exact absurd hheader (by decide)

theorem StoredChunk.bytes_injective {c d : StoredChunk} (hc : c.Fits) (hd : d.Fits)
    (h : c.bytes = d.bytes) : c = d := by
  obtain ⟨v, p, x⟩ := c
  obtain ⟨w, q, y⟩ := d
  simp only [bytes, List.append_assoc] at h
  obtain ⟨rfl, h⟩ := headerBytes_injective h
  obtain ⟨rfl, rfl⟩ := StoredPrototype.eq_of_bytes_append_eq hc hd h
  rfl

/-! ### Strings that can be read -/

theorem exists_mapM_eq_some_iff {α β : Type} {f : α → Option β} (as : List α) :
    (∃ bs, as.mapM f = some bs) ↔ ∀ a ∈ as, ∃ b, f a = some b := by
  induction as with
  | nil => simp
  | cons a rest ih =>
    rw [List.forall_mem_cons, ← ih]
    constructor
    · intro h
      obtain ⟨_, hall⟩ := h
      simp only [List.mapM_cons, Option.bind_eq_bind, Option.bind_eq_some_iff] at hall
      obtain ⟨b, hb, bs, hbs, _⟩ := hall
      exact ⟨⟨b, hb⟩, bs, hbs⟩
    · intro h
      obtain ⟨⟨b, hb⟩, bs, hbs⟩ := h
      exact ⟨b :: bs, by simp [List.mapM_cons, hb, hbs]⟩

section

variable {read : TextReader}

theorem StoredString.exists_text?_iff (s : StoredString) :
    (∃ text, s.text? read = some text) ↔ ∀ payload ∈ s.payloads, ∃ t, read payload = .ok t := by
  cases s with
  | absent => simp [text?, payloads]
  | present payload terminator =>
    simp only [text?, payloads, List.mem_singleton, forall_eq]
    cases read payload <;> simp [Except.toOption]

theorem StoredConstant.exists_constant?_iff (c : StoredConstant) :
    (∃ a, c.constant? read = some a) ↔ ∀ payload ∈ c.payloads, ∃ t, read payload = .ok t := by
  cases c with
  | string s =>
    rw [payloads, ← s.exists_text?_iff]
    simp [constant?]
  | _ => simp [constant?, payloads]

theorem StoredFunction.exists_info?_iff (annotate : Bool) (f : StoredFunction) :
    (∃ info, f.info? annotate read = some info) ↔
      ∀ payload ∈ f.payloads, ∃ t, read payload = .ok t := by
  have hconstants : (∃ cs, f.constants.mapM (StoredConstant.constant? read) = some cs) ↔
      ∀ payload ∈ f.constants.flatMap StoredConstant.payloads, ∃ t, read payload = .ok t := by
    rw [exists_mapM_eq_some_iff, List.forall_mem_flatMap]
    exact forall₂_congr fun c _ => c.exists_constant?_iff
  rw [payloads, List.forall_mem_append, ← f.source.exists_text?_iff, ← hconstants]
  simp [info?_eq_some_iff]

namespace StoredPrototype

mutual

theorem exists_tree?_iff (annotate : Bool) : (p : StoredPrototype) →
    ((∃ tree, p.tree? annotate read = some tree) ↔
      ∀ payload ∈ p.payloads, ∃ t, read payload = .ok t)
  | .node f children d => by
    rw [payloads, List.forall_mem_append, ← f.exists_info?_iff annotate,
      ← exists_treeAll?_iff annotate children]
    simp [tree?, Option.bind_eq_some_iff]

theorem exists_treeAll?_iff (annotate : Bool) : (ps : List StoredPrototype) →
    ((∃ trees, treeAll? annotate read ps = some trees) ↔
      ∀ payload ∈ payloadsAll ps, ∃ t, read payload = .ok t)
  | [] => by simp [treeAll?, payloadsAll]
  | p :: rest => by
    rw [payloadsAll, List.forall_mem_append, ← exists_tree?_iff annotate p,
      ← exists_treeAll?_iff annotate rest]
    simp [treeAll?, Option.bind_eq_some_iff]

end

end StoredPrototype

end

/-! ### What a decode returns -/

theorem readChunk_eq_ok_iff (o : Options) (counts : CountCheck) (b : Bytes) (c : Chunk) :
    (readChunk o counts b 0).result = .ok c ↔
      ∃ s : StoredChunk, s.Derives b ∧ s.Admissible o ∧ c.header.sizeWidth = s.width ∧ c.raw = b ∧
        s.root.tree? o.verboseInstructions o.stringErrors.read = some c.root := by
  have haccepts : (readChunk o counts b 0).result = .ok c ↔
      ∃ next, (readChunk o counts).Accepts b 0 c next := by
    simp [Scan.Accepts]
  simp only [haccepts, readChunk_accepts_iff]
  constructor
  · intro h
    obtain ⟨_, s, hbytes, hfits, hdepth, htrailing, ⟨root, hroot, rfl⟩, _⟩ := h
    have hreadable := (s.root.exists_tree?_iff o.verboseInstructions).mp ⟨root, hroot⟩
    exact ⟨s, ⟨hbytes, hfits⟩, ⟨hdepth, hreadable, htrailing⟩, rfl, rfl, hroot⟩
  · obtain ⟨⟨w⟩, root, raw⟩ := c
    intro h
    obtain ⟨s, ⟨hbytes, hfits⟩, ⟨hdepth, _, htrailing⟩, rfl, rfl, hroot⟩ := h
    exact ⟨_, s, hbytes, hfits, hdepth, htrailing, ⟨root, hroot, rfl⟩, rfl⟩

/-- A buffer decodes exactly if it derives from the grammar in a way that the options admit. It then
derives in no other way, and what is returned is what that derivation says. -/
theorem decode_iff_derives (o : Options) (b : Bytes) :
    ((∃ c, (decode o b).1 = .ok c) ↔ ∃ s : StoredChunk, s.Derives b ∧ s.Admissible o) ∧
    ∀ c, (decode o b).1 = .ok c ↔ ∃ s : StoredChunk,
      (s.Derives b ∧ s.Admissible o ∧ c.header.sizeWidth = s.width ∧ c.raw = b ∧
        s.root.tree? o.verboseInstructions o.stringErrors.read = some c.root) ∧
      ∀ s' : StoredChunk, s'.Derives b → s' = s := by
  have hdecode := fun c => readChunk_eq_ok_iff o .atCount b c
  refine ⟨⟨?_, ?_⟩, fun c => (hdecode c).trans ⟨?_, ?_⟩⟩
  · intro h
    obtain ⟨c, hc⟩ := h
    obtain ⟨s, hderives, hadmissible, _⟩ := (hdecode c).mp hc
    exact ⟨s, hderives, hadmissible⟩
  · intro h
    obtain ⟨s, hderives, hadmissible⟩ := h
    obtain ⟨root, hroot⟩ :=
      (s.root.exists_tree?_iff o.verboseInstructions).mpr hadmissible.readable
    exact ⟨⟨⟨s.width⟩, root, b⟩, (hdecode _).mpr ⟨s, hderives, hadmissible, rfl, rfl, hroot⟩⟩
  · intro h
    obtain ⟨s, hderives, hsays⟩ := h
    refine ⟨s, ⟨hderives, hsays⟩, fun s' hs' => ?_⟩
    exact StoredChunk.bytes_injective hs'.2 hderives.2 (hs'.1.trans hderives.1.symm)
  · intro h
    obtain ⟨s, ⟨hderives, hsays⟩, _⟩ := h
    exact ⟨s, hderives, hsays⟩

end LuaBytecode
