import LuaBytecode.Proofs.Scan.Header
import LuaBytecode.Proofs.Scan.Inner
import LuaBytecode.Scan.Operation

/-!
# Where a reader stands

An operation that starts inside the data leaves the reader inside and not further back, whether or
not it succeeds; so does every sequence of them. A read of a fixed number of bytes takes all of them
or none: it passes them if it succeeds, with a value that they alone decide, and else it stays.
-/

namespace LuaBytecode.Scan

variable {α β : Type}

/-! ### Scans that stay and scans that go forward -/

/-- Whatever comes of the scan, it ends where it started. -/
def Stays (s : Scan α) : Prop := ∀ data start, (s data start).offset = start

/-- Whatever comes of the scan, inside the data it does not move back and ends inside. -/
def Forward (s : Scan α) : Prop :=
  ∀ data start, Inside data start → start ≤ (s data start).offset ∧ Inside data (s data start).offset

theorem offset_bind_of_error {s : Scan α} {data : Bytes} {start : Int} {f : Fault}
    (h : (s data start).result = .error f) (k : α → Scan β) :
    ((s >>= k) data start).offset = (s data start).offset := by
  rcases hs : s data start with ⟨r, next, notes⟩
  rw [hs] at h
  cases h
  rw [bind_of_error hs]

theorem stays_pure (a : α) : (Pure.pure a : Scan α).Stays := fun _ _ => rfl

theorem stays_fail (f : Fault) : (fail f : Scan α).Stays := fun _ _ => rfl

theorem stays_position : position.Stays := fun _ _ => rfl

theorem stays_remaining : remaining.Stays := fun _ _ => rfl

theorem stays_peek (size : Int) : (peek size).Stays := fun _ _ => rfl

theorem stays_takeNote (n : Note) : (takeNote n).Stays := fun _ _ => rfl

theorem Stays.bind {s : Scan α} {k : α → Scan β} (hs : s.Stays) (hk : ∀ a, (k a).Stays) :
    (s >>= k).Stays := by
  intro data start
  rcases accepts_or_error s data start with ⟨a, middle, h⟩ | ⟨f, h⟩
  · rw [(h.bind k).2, hk, ← h.2, hs]
  · rw [offset_bind_of_error h, hs]

theorem Stays.forward {s : Scan α} (h : s.Stays) : s.Forward := by
  intro data start hinside
  rw [h]
  exact ⟨Int.le_refl start, hinside⟩

theorem Forward.bind {s : Scan α} {k : α → Scan β} (hs : s.Forward) (hk : ∀ a, (k a).Forward) :
    (s >>= k).Forward := by
  intro data start hinside
  obtain ⟨hmiddle, hinside'⟩ := hs data start hinside
  rcases accepts_or_error s data start with ⟨a, middle, h⟩ | ⟨f, h⟩
  · rw [h.2] at hmiddle hinside'
    obtain ⟨hlast, hinside''⟩ := hk a data middle hinside'
    rw [(h.bind k).2]
    exact ⟨Int.le_trans hmiddle hlast, hinside''⟩
  · rw [offset_bind_of_error h]
    exact ⟨hmiddle, hinside'⟩

theorem Takes.forward {s : Scan α} {purpose : Text} {field : Option Text} {size : Nat}
    {f : Bytes → α} (h : s.Takes purpose field size f) : s.Forward := by
  intro data start hinside
  obtain ⟨before, after, rfl, rfl⟩ := hinside.exists_append
  rw [h before after]
  by_cases hsize : size ≤ after.length
  · rw [if_pos hsize, Inside, List.length_append]
    simp only
    omega
  · rw [if_neg hsize]
    exact ⟨Int.le_refl _, hinside⟩

theorem stays_require (size : Int) (field : Option Text) : (require size field).Stays := by
  refine .bind stays_remaining fun left => .bind stays_position fun offset => ?_
  split
  · exact stays_fail _
  · exact stays_pure ()

theorem forward_readSize (width : Int) (field : Option Text) : (readSize width field).Forward := by
  cases hw : SizeWidth.ofBytes? width with
  | none =>
    rw [readSize_of_unsupported hw]
    exact (stays_fail _).forward
  | some w =>
    obtain rfl := eq_bytes_of_ofBytes? hw
    intro data start hinside
    obtain ⟨before, after, rfl, rfl⟩ := hinside.exists_append
    rcases readSize_cases w field before after with ⟨e, hs, _⟩ | ⟨n, rest, rfl, _, hs⟩
    · rw [hs]
      exact ⟨Int.le_refl _, hinside⟩
    · rw [hs, Inside]
      simp only [List.length_append]
      omega

theorem stays_textOf (read : TextReader) (start : Int) (field : Text) (payload : Bytes) :
    (textOf read start field payload).Stays := by
  unfold textOf
  split
  · exact stays_pure _
  · exact stays_fail _
  · exact stays_fail _

theorem forward_readString (width : Int) (read : TextReader) (field : Text) :
    (readString width read field).Forward := by
  refine stays_position.forward.bind fun start => (forward_readSize width _).bind fun size => ?_
  unfold readContent
  split
  · exact (stays_pure none).forward
  · exact (takes_readBytes size _).forward.bind fun content =>
      ((stays_textOf read _ field _).bind fun text => stays_pure (some text)).forward

theorem forward_skipString (width : Int) (field : Text) : (skipString width field).Forward :=
  (forward_readSize width _).bind fun size => (takes_skip size _).forward

theorem forward_readConstant (width : Int) (read : TextReader) :
    (readConstant width read).Forward := by
  refine stays_position.forward.bind fun start => (takes_readU8 _).forward.bind fun tag => ?_
  unfold readValue
  split
  · exact (stays_pure _).forward
  · exact (takes_readU8 _).forward.bind fun n => (stays_pure _).forward
  · exact (takes_readDouble _).forward.bind fun x => (stays_pure _).forward
  · exact (forward_readString width read _).bind fun text => (stays_pure _).forward
  · exact (stays_fail _).forward

theorem forward_readHeaderByte (field : Header.Field) : (readHeaderByte field).Forward := by
  refine stays_position.forward.bind fun start => (takes_readU8 _).forward.bind fun found => ?_
  split
  · exact (stays_pure found).forward
  · exact (stays_fail _).forward

theorem forward_readHeaderBytes (fields : List Header.Field) :
    (readHeaderBytes fields).Forward := by
  induction fields with
  | nil => exact (stays_pure []).forward
  | cons field fields ih =>
    exact (forward_readHeaderByte field).bind fun value =>
      ih.bind fun values => (stays_pure (value :: values)).forward

theorem forward_readDialect : readDialect.Forward := by
  rw [readDialect_eq]
  exact (forward_readHeaderBytes _).bind fun values => (stays_pure _).forward

theorem forward_readHeader : readHeader.Forward := by
  rw [readHeader_eq]
  refine stays_position.forward.bind fun start => (stays_peek 4).forward.bind fun found => ?_
  unfold readSigned
  split
  · exact (stays_fail _).forward
  · exact (takes_skip 4 _).forward.bind fun _ => forward_readDialect.bind fun width =>
      ((stays_takeNote _).bind fun _ => stays_pure (Header.mk width)).forward

/-! ### Single operations -/

/-- An operation that gives what a scan gives ends where the scan ends. -/
theorem run_bind_pure (s : Scan α) (f : α → β) (data : Bytes) (start : Int) :
    (s >>= fun a => Pure.pure (f a)) data start =
      ⟨(s data start).result.map f, (s data start).offset, (s data start).notes⟩ := by
  rcases h : s data start with ⟨fault | a, next, notes⟩
  · exact bind_of_error h _
  · rw [bind_of_ok h]
    exact congrArg (Scanned.mk (.ok (f a)) next) (List.append_nil notes)

theorem Forward.map {s : Scan α} (h : s.Forward) (f : α → β) :
    (s >>= fun a => Pure.pure (f a)).Forward :=
  h.bind fun a => (stays_pure (f a)).forward

namespace Operation

/-- The number of bytes that an operation is given, if it is given one, is not below zero. -/
def Sized : Operation → Prop
  | .peek size | .require size _ | .readBytes size _ | .skip size _ => 0 ≤ size
  | _ => True

theorem forward_run {op : Operation} (h : op.Sized) : op.run.Forward := by
  cases op with
  | peek size => exact (stays_peek size).forward.map _
  | require size field => exact (stays_require size field).forward.map _
  | readBytes size field =>
    obtain ⟨n, rfl⟩ := Int.eq_ofNat_of_zero_le h
    exact (takes_readBytes n field).forward.map _
  | skip size field =>
    obtain ⟨n, rfl⟩ := Int.eq_ofNat_of_zero_le h
    exact (takes_skip n field).forward.map _
  | readU8 field => exact (takes_readU8 field).forward.map _
  | readU32 field => exact (takes_readU32 field).forward.map _
  | readDouble field => exact (takes_readDouble field).forward.map _
  | readSize width field => exact (forward_readSize width field).map _
  | readString width errors field => exact (forward_readString width _ field).map _
  | skipString width field => exact (forward_skipString width field).map _
  | readConstant width errors => exact (forward_readConstant width _).map _
  | readHeader => exact forward_readHeader.map _

end Operation

/-- A read of a fixed number of bytes: how many there are, which it lets through, and what it makes of
them. -/
structure Primitive where
  size : Nat
  Admits : Bytes → Prop
  value : Bytes → Reading

/-- All of the bytes are read or none: they are passed if they are all there and are let through, and
then the value is theirs. -/
structure Primitive.Reads (p : Primitive) (data : Bytes) (start : Int) (r : Scanned Reading) :
    Prop where
  passes_iff : (∃ v, r.result = .ok v) ↔
    start + p.size ≤ data.length ∧ p.Admits (data.slice start (start + p.size))
  passed : ∀ v, r.result = .ok v →
    r.offset = start + p.size ∧ v = p.value (data.slice start (start + p.size))
  stayed : ∀ f, r.result = .error f → r.offset = start

section

variable {p : Primitive} {data : Bytes} {start : Int}

theorem Primitive.reads_of_ok (hlength : start + p.size ≤ data.length)
    (hadmits : p.Admits (data.slice start (start + p.size))) (notes : List Note) :
    p.Reads data start
      ⟨.ok (p.value (data.slice start (start + p.size))), start + p.size, notes⟩ where
  passes_iff := ⟨fun _ => ⟨hlength, hadmits⟩, fun _ => ⟨_, rfl⟩⟩
  passed _ hv := ⟨rfl, (Except.ok.inj hv).symm⟩
  stayed _ hf := by cases hf

theorem Primitive.reads_of_error
    (h : ¬(start + p.size ≤ data.length ∧ p.Admits (data.slice start (start + p.size))))
    (f : Fault) (notes : List Note) : p.Reads data start ⟨.error f, start, notes⟩ where
  passes_iff := by
    refine ⟨fun hv => ?_, fun hfits => absurd hfits h⟩
    obtain ⟨v, hv⟩ := hv
    cases hv
  passed _ hv := by cases hv
  stayed _ _ := rfl

theorem add_le_length_append_iff (before after : Bytes) (size : Nat) :
    (before.length : Int) + size ≤ (before ++ after).length ↔ size ≤ after.length := by
  rw [List.length_append]
  omega

theorem Takes.reads {s : Scan α} {purpose : Text} {field : Option Text} {size : Nat}
    {f : Bytes → α} (h : s.Takes purpose field size f) (g : α → Reading)
    (hinside : Inside data start) :
    (Primitive.mk size (fun _ => True) fun word => g (f word)).Reads data start
      ((s >>= fun a => Pure.pure (g a)) data start) := by
  obtain ⟨before, after, rfl, rfl⟩ := hinside.exists_append
  have hlength := add_le_length_append_iff before after size
  rw [run_bind_pure, h before after]
  by_cases hsize : size ≤ after.length
  · rw [if_pos hsize, ← slice_append before after size]
    exact Primitive.reads_of_ok (hlength.mpr hsize) trivial []
  · rw [if_neg hsize]
    exact Primitive.reads_of_error (fun hfits => hsize (hlength.mp hfits.1)) _ []

/-- A size is let through if the width is one of sizes and the host can hold it. -/
def Primitive.ofSize (width : Int) (bytes : Nat) : Primitive where
  size := bytes
  Admits word := (width = 4 ∨ width = 8) ∧ Bytes.littleEndian word ≤ 0x7FFFFFFFFFFFFFFF
  value word := .number (Bytes.littleEndian word)

theorem ofBytes?_eq_none_iff {width : Int} :
    SizeWidth.ofBytes? width = none ↔ ¬(width = 4 ∨ width = 8) := by
  unfold SizeWidth.ofBytes?
  split
  · simp_all
  · split <;> simp_all

theorem reads_readSize (width : Int) (field : Option Text) (hinside : Inside data start) :
    (Primitive.ofSize width width.toNat).Reads data start
      ((readSize width field >>= fun n => Pure.pure (Reading.number n)) data start) := by
  rw [run_bind_pure]
  cases hw : SizeWidth.ofBytes? width with
  | none =>
    have hwidth := ofBytes?_eq_none_iff.mp hw
    rw [readSize_of_unsupported hw]
    refine Primitive.reads_of_error ?_ _ []
    rintro ⟨_, hsupported, _⟩
    exact hwidth hsupported
  | some w =>
    have hwidth : width = 4 ∨ width = 8 := by
      by_contra hnone
      rw [ofBytes?_eq_none_iff.mpr hnone] at hw
      cases hw
    obtain rfl := eq_bytes_of_ofBytes? hw
    obtain ⟨before, after, rfl, rfl⟩ := hinside.exists_append
    have hlength := add_le_length_append_iff before after w.bytes
    rw [Int.toNat_natCast, readSize_append, ← slice_append before after w.bytes]
    by_cases hbytes : w.bytes ≤ after.length
    · rw [if_pos hbytes]
      split
      · rename_i hmax
        refine Primitive.reads_of_error ?_ _ []
        rintro ⟨_, _, hheld⟩
        exact absurd hheld (Nat.not_le_of_lt hmax)
      · rename_i hmax
        have hadmits : (Primitive.ofSize w.bytes w.bytes).Admits ((before ++ after).slice
            before.length ((before.length : Int) + w.bytes)) := ⟨hwidth, Nat.le_of_not_lt hmax⟩
        exact Primitive.reads_of_ok (hlength.mpr hbytes) hadmits []
    · rw [if_neg hbytes]
      exact Primitive.reads_of_error (fun hfits => hbytes (hlength.mp hfits.1)) _ []

end

namespace Operation

/-- What an operation does that reads a fixed number of bytes. -/
def primitive? : Operation → Option Primitive
  | .readBytes size _ => some ⟨size.toNat, fun _ => True, .bytes⟩
  | .skip size _ => some ⟨size.toNat, fun _ => True, fun _ => .nothing⟩
  | .readU8 _ => some ⟨1, fun _ => True, fun word => .number (Bytes.littleEndian word)⟩
  | .readU32 _ => some ⟨4, fun _ => True, fun word => .number (Bytes.littleEndian word)⟩
  | .readDouble _ =>
    some ⟨8, fun _ => True, fun word => .double ⟨.ofNat (Bytes.littleEndian word)⟩⟩
  | .readSize width _ => some (.ofSize width width.toNat)
  | .peek _ | .require _ _ | .readString _ _ _ | .skipString _ _ | .readConstant _ _
  | .readHeader => none

/-- What an operation does where it starts: a look shows what is left up to its size, a demand is met
if so much is left, neither moves, and the reads of a fixed number of bytes read all or none. -/
def Law (op : Operation) (data : Bytes) (start : Int) (r : Scanned Reading) : Prop :=
  match op with
  | .peek size => r.offset = start ∧ ∃ found, r.result = .ok (.bytes found) ∧
      found <+: data.drop start.toNat ∧ (found.length : Int) = min size (data.length - start)
  | .require size _ => r.offset = start ∧
      ((∃ v, r.result = .ok v) ↔ start + size ≤ data.length)
  | _ => ∀ p, op.primitive? = some p → p.Reads data start r

theorem law_run {op : Operation} (h : op.Sized) {data : Bytes} {start : Int}
    (hinside : Inside data start) : op.Law data start (op.run data start) := by
  cases op with
  | peek size =>
    obtain ⟨n, rfl⟩ := Int.eq_ofNat_of_zero_le h
    obtain ⟨before, after, rfl, rfl⟩ := hinside.exists_append
    have hrun : (Operation.peek n).run (before ++ after) before.length =
        ⟨.ok (.bytes (after.take n)), before.length, []⟩ :=
      bind_of_ok (peek_append before after n) _
    rw [hrun, Law, Int.toNat_natCast, List.drop_left, List.length_append]
    refine ⟨rfl, _, rfl, List.take_prefix n after, ?_⟩
    rw [List.length_take]
    omega
  | require size field =>
    obtain ⟨n, rfl⟩ := Int.eq_ofNat_of_zero_le h
    obtain ⟨before, after, rfl, rfl⟩ := hinside.exists_append
    have hrun : (Operation.require n field).run (before ++ after) before.length = _ :=
      run_bind_pure _ _ _ _
    rw [hrun, require_append, Law, List.length_append]
    refine ⟨rfl, ?_⟩
    by_cases hsize : n ≤ after.length
    · rw [if_pos hsize]
      exact ⟨fun _ => by omega, fun _ => ⟨_, rfl⟩⟩
    · rw [if_neg hsize]
      refine ⟨fun hv => ?_, fun hlength => absurd (by omega) hsize⟩
      obtain ⟨v, hv⟩ := hv
      cases hv
  | readBytes size field =>
    obtain ⟨n, rfl⟩ := Int.eq_ofNat_of_zero_le h
    rintro _ ⟨⟩
    exact (takes_readBytes n field).reads Reading.bytes hinside
  | skip size field =>
    obtain ⟨n, rfl⟩ := Int.eq_ofNat_of_zero_le h
    rintro _ ⟨⟩
    exact (takes_skip n field).reads (fun _ => Reading.nothing) hinside
  | readU8 field =>
    rintro _ ⟨⟩
    exact (takes_readU8 field).reads Reading.number hinside
  | readU32 field =>
    rintro _ ⟨⟩
    exact (takes_readU32 field).reads Reading.number hinside
  | readDouble field =>
    rintro _ ⟨⟩
    exact (takes_readDouble field).reads Reading.double hinside
  | readSize width field =>
    rintro _ ⟨⟩
    exact reads_readSize width field hinside
  | readString width errors field => rintro _ ⟨⟩
  | skipString width field => rintro _ ⟨⟩
  | readConstant width errors => rintro _ ⟨⟩
  | readHeader => rintro _ ⟨⟩

/-! ### Sequences of operations -/

/-- Where the reader stands: at first, and after each of the operations. -/
def stands (ops : List Operation) (data : Bytes) (start : Int) : List Int :=
  start :: (runAll ops data start).map (·.offset)

section

variable {ops : List Operation} {data : Bytes} {start : Int}

theorem stands_inside (hops : ∀ op ∈ ops, op.Sized) (hstart : Inside data start) :
    ∀ offset ∈ stands ops data start, start ≤ offset ∧ Inside data offset := by
  induction ops generalizing start with
  | nil =>
    intro offset hmem
    obtain rfl := List.mem_singleton.mp hmem
    exact ⟨Int.le_refl _, hstart⟩
  | cons op rest ih =>
    obtain ⟨hsized, hrest⟩ := List.forall_mem_cons.mp hops
    obtain ⟨hnext, hinside⟩ := forward_run hsized data start hstart
    intro offset hmem
    rcases List.mem_cons.mp hmem with rfl | hmem
    · exact ⟨Int.le_refl _, hstart⟩
    · obtain ⟨hle, hoffset⟩ := ih hrest hinside offset hmem
      exact ⟨Int.le_trans hnext hle, hoffset⟩

theorem stands_pairwise (hops : ∀ op ∈ ops, op.Sized) (hstart : Inside data start) :
    (stands ops data start).Pairwise (· ≤ ·) := by
  induction ops generalizing start with
  | nil => exact List.pairwise_singleton _ _
  | cons op rest ih =>
    obtain ⟨hsized, hrest⟩ := List.forall_mem_cons.mp hops
    obtain ⟨hnext, hinside⟩ := forward_run hsized data start hstart
    refine List.pairwise_cons.mpr ⟨fun offset hmem => ?_, ih hrest hinside⟩
    exact Int.le_trans hnext (stands_inside hrest hinside offset hmem).1

/-- Each operation does what is said of it from where the reader then stands. -/
theorem law_runAll (hops : ∀ op ∈ ops, op.Sized) (hstart : Inside data start) {i : Nat}
    {op : Operation} (hop : ops[i]? = some op) :
    ∃ offset, (stands ops data start)[i]? = some offset ∧
      (runAll ops data start)[i]? = some (op.run data offset) ∧
      op.Law data offset (op.run data offset) := by
  induction ops generalizing start i with
  | nil => cases hop
  | cons first rest ih =>
    obtain ⟨hsized, hrest⟩ := List.forall_mem_cons.mp hops
    cases i with
    | zero =>
      cases hop
      exact ⟨start, rfl, rfl, law_run hsized hstart⟩
    | succ i => exact ih hrest (forward_run hsized data start hstart).2 hop

end

/-- Operations may fail and others go on after them, and the reader never moves back or leaves the
data: what remains is what lies between it and the end, and it is at the end if nothing remains.
Every operation does what is said of it from where the one before left the reader. -/
theorem runAll_forward {ops : List Operation} {data : Bytes} {start : Int}
    (hops : ∀ op ∈ ops, op.Sized) (hstart : Inside data start) :
    (stands ops data start).Pairwise (· ≤ ·) ∧
      (∀ offset ∈ stands ops data start, 0 ≤ offset ∧ offset ≤ data.length ∧ ∃ left : Int,
        left = data.length - offset ∧ 0 ≤ left ∧
          remaining data offset = ⟨.ok left, offset, []⟩ ∧
          atEnd data offset = ⟨.ok (decide (left = 0)), offset, []⟩) ∧
      ∀ (i : Nat) (op : Operation), ops[i]? = some op → ∃ offset r,
        (stands ops data start)[i]? = some offset ∧ (runAll ops data start)[i]? = some r ∧
          r = op.run data offset ∧ op.Law data offset r := by
  refine ⟨stands_pairwise hops hstart, fun offset hmem => ?_, fun i op hop => ?_⟩
  · obtain ⟨_, hlow, hhigh⟩ := stands_inside hops hstart offset hmem
    have hend : decide ((data.length : Int) ≤ offset) = decide ((data.length : Int) - offset = 0) :=
      decide_eq_decide.mpr (by omega)
    exact ⟨hlow, hhigh, data.length - offset, rfl, by omega, rfl, hend ▸ rfl⟩
  · obtain ⟨offset, hoffset, hr, hlaw⟩ := law_runAll hops hstart hop
    exact ⟨offset, _, hoffset, hr, rfl, hlaw⟩

/-- A byte, and after it a size that no host can hold. -/
def hugeSize : Bytes := 0x07 :: List.replicate 8 0xFF

def hugeSizeReads : List Operation :=
  [.readU8 none, .readSize 8 (some "size"), .peek 20, .skip 9 none, .readU32 none]

theorem runAll_hugeSize : (∀ op ∈ hugeSizeReads, op.Sized) ∧ Inside hugeSize 0 ∧
    (stands hugeSizeReads hugeSize 0).Pairwise (· ≤ ·) ∧
    stands hugeSizeReads hugeSize 0 = [0, 1, 1, 1, 1, 5] := by
  have hsized : ∀ op ∈ hugeSizeReads, op.Sized := by
    simp [hugeSizeReads, Sized]
  have hinside : Inside hugeSize 0 := ⟨by decide, by decide⟩
  obtain ⟨hforward, _⟩ := runAll_forward hsized hinside
  exact ⟨hsized, hinside, hforward, by decide +kernel⟩

end Operation

end LuaBytecode.Scan
