import LuaBytecode.Proofs.Bytes
import LuaBytecode.Proofs.Scan.Recognition
import LuaBytecode.Scan.Primitive

/-!
# Reads of a fixed number of bytes

Bytes, numbers and passages are all read in one way: the read takes a fixed number of bytes and
makes a value of them, or it fails where it stands and tells how many bytes it misses. Each of them
is shown to be such a read, and what it recognizes follows.
-/

namespace LuaBytecode

namespace Format

def byte : Format UInt8 Nat where
  bytes b := [b]
  Fits _ := True
  value? b := some b.toNat

def word : Format UInt32 Nat where
  bytes x := Bytes.ofLittleEndian 4 x.toNat
  Fits _ := True
  value? x := some x.toNat

def count : Format Nat Nat where
  bytes n := Bytes.ofLittleEndian 4 n
  Fits n := n < 2 ^ 32
  value? n := some n

def double : Format Binary64 Binary64 where
  bytes x := Bytes.ofLittleEndian 8 x.bits.toNat
  Fits _ := True
  value? x := some x

def size (w : SizeWidth) : Format Nat Nat where
  bytes n := Bytes.ofLittleEndian w.bytes n
  Fits n := n < 256 ^ w.bytes ∧ n ≤ maxSize
  value? n := some n

theorem bind_iff {τ α β : Type} {F : Format τ α} {K : α → Language β} {text : Bytes} {b : β} :
    F.language.bind K text b ↔
      ∃ t a rest, text = F.bytes t ++ rest ∧ F.Fits t ∧ F.value? t = some a ∧ K a rest b := by
  constructor
  · intro h
    obtain ⟨_, a, rest, ⟨t, hfits, ha, rfl⟩, hrest, htext⟩ := h
    exact ⟨t, a, rest, htext, hfits, ha, hrest⟩
  · intro h
    obtain ⟨t, a, rest, htext, hfits, ha, hrest⟩ := h
    exact ⟨_, a, rest, ⟨t, hfits, ha, rfl⟩, hrest, htext⟩

theorem bind_iff_of_total {τ α β : Type} {F : Format τ α} {value : τ → α} (hfits : ∀ t, F.Fits t)
    (hvalue : ∀ t, F.value? t = some (value t)) {K : α → Language β} {text : Bytes} {b : β} :
    F.language.bind K text b ↔ ∃ t rest, text = F.bytes t ++ rest ∧ K (value t) rest b := by
  rw [bind_iff]
  constructor
  · intro h
    obtain ⟨t, a, rest, htext, _, ha, hrest⟩ := h
    rw [hvalue t, Option.some.injEq] at ha
    exact ⟨t, rest, htext, ha ▸ hrest⟩
  · intro h
    obtain ⟨t, rest, htext, hrest⟩ := h
    exact ⟨t, value t, rest, htext, hfits t, hvalue t, hrest⟩

theorem bind_byte_iff {β : Type} {K : Nat → Language β} {text : Bytes} {b : β} :
    byte.language.bind K text b ↔ ∃ x rest, text = x :: rest ∧ K x.toNat rest b :=
  bind_iff_of_total (fun _ => trivial) fun _ => rfl

theorem bind_word_iff {β : Type} {K : Nat → Language β} {text : Bytes} {b : β} :
    word.language.bind K text b ↔ ∃ x rest, text = word.bytes x ++ rest ∧ K x.toNat rest b :=
  bind_iff_of_total (fun _ => trivial) fun _ => rfl

theorem word_unambiguous : word.Unambiguous :=
  unambiguous_of_length (fun _ => Bytes.length_ofLittleEndian 4 _) fun t u _ _ h =>
    UInt32.toNat_inj.mp (Bytes.ofLittleEndian_injective t.toNat_lt u.toNat_lt h)

theorem count_unambiguous : count.Unambiguous :=
  unambiguous_of_length (fun _ => Bytes.length_ofLittleEndian 4 _) fun _ _ ht hu h =>
    Bytes.ofLittleEndian_injective ht hu h

theorem double_unambiguous : double.Unambiguous :=
  unambiguous_of_length (fun _ => Bytes.length_ofLittleEndian 8 _) fun t u _ _ h =>
    congrArg Binary64.mk
      (UInt64.toNat_inj.mp (Bytes.ofLittleEndian_injective t.bits.toNat_lt u.bits.toNat_lt h))

theorem size_unambiguous (w : SizeWidth) : (size w).Unambiguous :=
  unambiguous_of_length (fun _ => Bytes.length_ofLittleEndian w.bytes _) fun _ _ ht hu h =>
    Bytes.ofLittleEndian_injective ht.1 hu.1 h

end Format

namespace Scan

variable {α : Type}

theorem stationary_remaining : remaining.Stationary := fun data offset =>
  ⟨data.length - offset, [], rfl⟩

theorem stationary_peek (size : Int) : (peek size).Stationary := fun data offset =>
  ⟨data.slice offset (offset + size), [], rfl⟩

theorem offset_after_take (before : Bytes) {after : Bytes} {size : Nat} (h : size ≤ after.length) :
    (before.length : Int) + size = (before ++ after.take size).length := by
  rw [List.length_append, List.length_take_of_le h]
  rfl

/-- The scan makes `f` of the next `size` bytes and passes them; if there are fewer it fails where
it stands. -/
def Takes (s : Scan α) (purpose : Text) (field : Option Text) (size : Nat) (f : Bytes → α) : Prop :=
  ∀ before after : Bytes, s (before ++ after) before.length =
    if size ≤ after.length then ⟨.ok (f (after.take size)), (before.length : Int) + size, []⟩
    else ⟨.error (.decode ⟨.shortRead purpose field size after.length, before.length⟩),
      before.length, []⟩

theorem checkSpan_append (before after : Bytes) (size : Nat) (purpose : Text)
    (field : Option Text) :
    (before ++ after).checkSpan before.length size purpose field =
      if size ≤ after.length then .ok ()
      else .error ⟨.shortRead purpose field size after.length, before.length⟩ := by
  have havailable : (before ++ after).available before.length = after.length := by
    simp only [Bytes.available, List.length_append]
    omega
  simp only [Bytes.checkSpan, havailable]
  by_cases hsize : size ≤ after.length
  · rw [if_neg (by rw [List.length_append]; omega), if_pos hsize]
  · rw [if_pos (by rw [List.length_append]; omega), if_neg hsize]

theorem slice_append (before after : Bytes) (size : Nat) :
    (before ++ after).slice before.length ((before.length : Int) + size) = after.take size := by
  have hstart : Bytes.position (before ++ after).length before.length = before.length := by
    rw [Bytes.position, if_neg (by omega), List.length_append]
    omega
  have hstop : Bytes.position (before ++ after).length ((before.length : Int) + size) =
      before.length + min size after.length := by
    rw [Bytes.position, if_neg (by omega), List.length_append]
    omega
  simp only [Bytes.slice, hstart, hstop, Nat.add_sub_cancel_left, List.drop_left]
  exact List.take_eq_take_min.symm

theorem peek_append (before after : Bytes) (size : Nat) :
    peek size (before ++ after) before.length = ⟨.ok (after.take size), before.length, []⟩ := by
  change Scanned.mk (.ok ((before ++ after).slice before.length (before.length + size))) _ _ = _
  rw [slice_append]

theorem peekNumber_append (before after : Bytes) (size : Nat) (field : Option Text) :
    peekNumber size field (before ++ after) before.length =
      ⟨if size ≤ after.length then .ok (Bytes.littleEndian (after.take size))
        else .error (.decode ⟨.shortRead "integer" field size after.length, before.length⟩),
        before.length, []⟩ := by
  change Scanned.mk (((before ++ after).numberAt before.length size field).mapError Fault.decode)
    _ _ = _
  rw [Bytes.numberAt, checkSpan_append]
  by_cases hsize : size ≤ after.length
  · rw [if_pos hsize, if_pos hsize, slice_append]
    rfl
  · rw [if_neg hsize, if_neg hsize]
    rfl

theorem takes_peekNumber_moveBy (size : Nat) (field : Option Text) :
    (do let n ← peekNumber size field; moveBy size; return n : Scan Nat).Takes "integer" field size
      Bytes.littleEndian := by
  intro before after
  have hpeek := peekNumber_append before after size field
  by_cases hsize : size ≤ after.length
  · rw [if_pos hsize] at hpeek ⊢
    rw [bind_of_ok hpeek]
    rfl
  · rw [if_neg hsize] at hpeek ⊢
    rw [bind_of_error hpeek]

theorem takes_readU8 (field : Option Text) :
    (readU8 field).Takes "integer" field 1 Bytes.littleEndian :=
  takes_peekNumber_moveBy 1 field

theorem takes_readU32 (field : Option Text) :
    (readU32 field).Takes "integer" field 4 Bytes.littleEndian :=
  takes_peekNumber_moveBy 4 field

theorem takes_readDouble (field : Option Text) :
    (readDouble field).Takes "number" field 8 Binary64.ofBytes := by
  intro before after
  change (liftResult (((before ++ after).doubleAt before.length field).mapError Fault.decode) >>=
    fun x => moveBy 8 >>= fun _ => Pure.pure x) (before ++ after) before.length = _
  rw [Bytes.doubleAt, show (8 : Int) = (8 : Nat) from rfl, checkSpan_append]
  by_cases hsize : 8 ≤ after.length
  · rw [if_pos hsize, if_pos hsize, slice_append]
    rfl
  · rw [if_neg hsize, if_neg hsize]
    rfl

/-- What follows a demand is run if the demand is met, wherever it is made. -/
theorem require_bind_run (data : Bytes) (offset size : Int) (field : Option Text)
    (k : Unit → Scan α) :
    (require size field >>= k) data offset =
      if offset + size ≤ data.length then k () data offset
      else ⟨.error (.decode ⟨.shortRead "read" field size (data.length - offset), offset⟩),
        offset, []⟩ := by
  have hrequire : require size field data offset = (if (data.length : Int) - offset < size then
      failAt offset (.shortRead "read" field size (data.length - offset))
    else Pure.pure ()) data offset := rfl
  by_cases hfits : offset + size ≤ data.length
  · rw [if_neg (by omega)] at hrequire
    rw [if_pos hfits]
    exact bind_of_ok hrequire k
  · rw [if_pos (by omega)] at hrequire
    rw [if_neg hfits]
    exact bind_of_error hrequire k

theorem require_bind_append (before after : Bytes) (size : Nat) (field : Option Text)
    (k : Unit → Scan α) :
    (require size field >>= k) (before ++ after) before.length =
      if size ≤ after.length then k () (before ++ after) before.length
      else ⟨.error (.decode ⟨.shortRead "read" field size after.length, before.length⟩),
        before.length, []⟩ := by
  have hleft : ((before ++ after).length : Int) - before.length = after.length := by
    rw [List.length_append]
    omega
  rw [require_bind_run, hleft]
  by_cases hsize : size ≤ after.length
  · rw [if_pos (by omega), if_pos hsize]
  · rw [if_neg (by omega), if_neg hsize]

theorem require_append (before after : Bytes) (size : Nat) (field : Option Text) :
    require size field (before ++ after) before.length =
      ⟨if size ≤ after.length then .ok ()
        else .error (.decode ⟨.shortRead "read" field size after.length, before.length⟩),
        before.length, []⟩ := by
  rw [← bind_pure (require size field), require_bind_append]
  split <;> rfl

theorem takes_skip (size : Nat) (field : Option Text) :
    (skip size field).Takes "read" field size fun _ => () :=
  fun before after => require_bind_append before after size field fun _ => moveBy size

theorem takes_readBytes (size : Nat) (field : Option Text) :
    (readBytes size field).Takes "read" field size id := by
  intro before after
  apply (require_bind_append before after size field _).trans
  rw [bind_of_ok (peek_append before after size)]
  rfl

/-! ### What they recognize -/

theorem Takes.recognizes {s : Scan α} {purpose : Text} {field : Option Text} {size : Nat}
    {f : Bytes → α} (h : s.Takes purpose field size f) :
    s.Recognizes fun word a => word.length = size ∧ a = f word := by
  intro before after a next
  rw [Accepts, h before after]
  by_cases hsize : size ≤ after.length
  · rw [if_pos hsize]
    constructor
    · intro hword
      obtain ⟨hvalue, rfl⟩ := hword
      exact ⟨after.take size, after.drop size, (List.take_append_drop size after).symm,
        offset_after_take before hsize, List.length_take_of_le hsize, (Except.ok.inj hvalue).symm⟩
    · intro hword
      obtain ⟨word, rest, rfl, rfl, rfl, rfl⟩ := hword
      rw [List.take_left, List.length_append]
      exact ⟨rfl, rfl⟩
  · rw [if_neg hsize]
    constructor
    · intro hword
      obtain ⟨hvalue, _⟩ := hword
      cases hvalue
    · intro hword
      obtain ⟨word, rest, rfl, _, rfl, _⟩ := hword
      rw [List.length_append] at hsize
      omega

theorem recognizes_readU8 (field : Option Text) :
    (readU8 field).Recognizes Format.byte.language := by
  refine (takes_readU8 field).recognizes.congr fun word n => ⟨?_, ?_⟩
  · intro h
    obtain ⟨hlength, rfl⟩ := h
    obtain ⟨b, rfl⟩ := List.length_eq_one_iff.mp hlength
    exact ⟨b, trivial, by simp [Format.byte, Bytes.littleEndian], rfl⟩
  · intro h
    obtain ⟨b, _, hn, rfl⟩ := h
    exact ⟨rfl, by simpa [Format.byte, Bytes.littleEndian] using (Option.some.inj hn).symm⟩

theorem recognizes_readCount (field : Option Text) :
    (readU32 field).Recognizes Format.count.language := by
  refine (takes_readU32 field).recognizes.congr fun word n => ⟨?_, ?_⟩
  · intro h
    obtain ⟨hlength, rfl⟩ := h
    exact ⟨_, Bytes.littleEndian_lt_of_length hlength, rfl,
      (Bytes.ofLittleEndian_of_length hlength).symm⟩
  · intro h
    obtain ⟨m, hm, hn, rfl⟩ := h
    cases hn
    exact ⟨Bytes.length_ofLittleEndian 4 n, (Bytes.littleEndian_of_lt hm).symm⟩

theorem recognizes_readU32 (field : Option Text) :
    (readU32 field).Recognizes Format.word.language := by
  refine (recognizes_readCount field).congr fun word n => ⟨?_, ?_⟩
  · intro h
    obtain ⟨m, hm, hn, rfl⟩ := h
    cases hn
    have hround : (UInt32.ofNat n).toNat = n := UInt32.toNat_ofNat_of_lt' hm
    exact ⟨UInt32.ofNat n, trivial, by simp only [Format.word, hround],
      by simp only [Format.word, Format.count, hround]⟩
  · intro h
    obtain ⟨x, _, hn, rfl⟩ := h
    cases hn
    exact ⟨x.toNat, x.toNat_lt, rfl, rfl⟩

theorem recognizes_readDouble (field : Option Text) :
    (readDouble field).Recognizes Format.double.language := by
  refine (takes_readDouble field).recognizes.congr fun word x => ⟨?_, ?_⟩
  · intro h
    obtain ⟨hlength, rfl⟩ := h
    have hround : (UInt64.ofNat (Bytes.littleEndian word)).toNat = Bytes.littleEndian word :=
      UInt64.toNat_ofNat_of_lt' (Bytes.littleEndian_lt_of_length hlength)
    refine ⟨.ofBytes word, trivial, rfl, ?_⟩
    simp only [Format.double, Binary64.ofBytes, hround, Bytes.ofLittleEndian_of_length hlength]
  · intro h
    obtain ⟨y, _, hx, rfl⟩ := h
    cases hx
    have hround : Bytes.littleEndian (Bytes.ofLittleEndian 8 x.bits.toNat) = x.bits.toNat :=
      Bytes.littleEndian_of_lt x.bits.toNat_lt
    refine ⟨Bytes.length_ofLittleEndian 8 _, ?_⟩
    simp only [Format.double, Binary64.ofBytes, hround, UInt64.ofNat_toNat]

theorem recognizes_readBytes (size : Nat) (field : Option Text) :
    (readBytes size field).Recognizes fun word data => word.length = size ∧ data = word :=
  (takes_readBytes size field).recognizes

theorem recognizes_skip (size : Nat) (field : Option Text) :
    (skip size field).Recognizes fun word _ => word.length = size :=
  (takes_skip size field).recognizes.congr fun _ _ => and_iff_left rfl

/-- A look ahead that refuses all but one string leaves the words that begin with that string. -/
theorem recognizes_peek_bind (lead : Bytes) {k : Bytes → Scan α} {L : Language α}
    (hk : (k lead).Recognizes L) (hsize : L.AtLeast lead.length)
    (hother : ∀ found, found ≠ lead → (k found).Recognizes fun _ _ => False) :
    (peek lead.length >>= k).Recognizes fun word a => lead <+: word ∧ L word a := by
  intro before after a next
  have hpeek := peek_append before after lead.length
  simp only [Accepts, bind_of_ok hpeek]
  by_cases hfound : after.take lead.length = lead
  · have hlead : lead <+: after := hfound ▸ List.take_prefix _ after
    rw [hfound]
    refine (hk before after a next).trans ⟨?_, ?_⟩
    · intro h
      obtain ⟨word, rest, rfl, hnext, hword⟩ := h
      have hprefix := List.prefix_of_prefix_length_le hlead (List.prefix_append word rest)
        (hsize word a hword)
      exact ⟨word, rest, rfl, hnext, hprefix, hword⟩
    · intro h
      obtain ⟨word, rest, rfl, hnext, _, hword⟩ := h
      exact ⟨word, rest, rfl, hnext, hword⟩
  · refine (hother _ hfound before after a next).trans ⟨?_, ?_⟩
    · intro h
      obtain ⟨_, _, _, _, hfalse⟩ := h
      exact hfalse.elim
    · intro h
      obtain ⟨_, rest, rfl, _, ⟨others, rfl⟩, _⟩ := h
      rw [List.append_assoc, List.take_left] at hfound
      exact absurd rfl hfound

theorem ofBytes?_bytes (w : SizeWidth) : SizeWidth.ofBytes? w.bytes = some w := by
  cases w <;> rfl

theorem eq_bytes_of_ofBytes? {width : Int} {w : SizeWidth}
    (h : SizeWidth.ofBytes? width = some w) : width = w.bytes := by
  unfold SizeWidth.ofBytes? at h
  split at h
  · cases h
    assumption
  · split at h
    · cases h
      assumption
    · cases h

theorem readSize_of_unsupported {width : Int} (h : SizeWidth.ofBytes? width = none)
    (field : Option Text) : readSize width field = fail (.unsupportedWidth width) := by
  rw [readSize, h]

/-- A size field is read only if the size is one that the host can hold; else the scan stays where
it is. -/
theorem readSize_append (before after : Bytes) (w : SizeWidth) (field : Option Text) :
    readSize w.bytes field (before ++ after) before.length =
      if w.bytes ≤ after.length then
        if maxSize < Bytes.littleEndian (after.take w.bytes) then
          ⟨.error (.decode ⟨.sizeTooLarge field (Bytes.littleEndian (after.take w.bytes)),
            before.length⟩), before.length, []⟩
        else ⟨.ok (Bytes.littleEndian (after.take w.bytes)), (before.length : Int) + w.bytes, []⟩
      else ⟨.error (.decode ⟨.shortRead "integer" field w.bytes after.length, before.length⟩),
        before.length, []⟩ := by
  have hpeek := peekNumber_append before after w.bytes field
  rw [readSize, ofBytes?_bytes]
  refine (bind_of_ok rfl _).trans ?_
  by_cases hsize : w.bytes ≤ after.length
  · rw [if_pos hsize] at hpeek ⊢
    rw [bind_of_ok hpeek]
    by_cases hmax : maxSize < Bytes.littleEndian (after.take w.bytes)
    · rw [if_pos hmax, if_pos hmax]
      rfl
    · rw [if_neg hmax, if_neg hmax]
      rfl
  · rw [if_neg hsize] at hpeek ⊢
    rw [bind_of_error hpeek]
    rfl

/-- The error of a size that is not read: bytes are missing, or the size is too large; it is told where
the size is. -/
structure SizeFault (field : Option Text) (offset : Int) (e : DecodeError) : Prop where
  kind : e.kind = .truncatedInput ∨ e.kind = .range
  field_eq : e.field = field
  offset_eq : e.offset = offset

theorem SizeFault.ne_invalidString {field : Option Text} {offset : Int} {e : DecodeError}
    (h : SizeFault field offset e) : e.kind ≠ .invalidString := by
  rcases h.kind with hkind | hkind <;> simp [hkind]

/-- Either the size is not read, or it is one that the host can hold and was written where it is
read. -/
theorem readSize_cases (w : SizeWidth) (field : Option Text) (before after : Bytes) :
    (∃ e : DecodeError, readSize w.bytes field (before ++ after) before.length =
        ⟨.error (.decode e), before.length, []⟩ ∧ SizeFault field before.length e) ∨
      ∃ n rest, after = Bytes.ofLittleEndian w.bytes n ++ rest ∧
        (n < 256 ^ w.bytes ∧ n ≤ maxSize) ∧
        readSize w.bytes field (before ++ after) before.length =
          ⟨.ok n, (before ++ Bytes.ofLittleEndian w.bytes n).length, []⟩ := by
  rw [readSize_append]
  by_cases hsize : w.bytes ≤ after.length
  · rw [if_pos hsize]
    have hlength : (after.take w.bytes).length = w.bytes := List.length_take_of_le hsize
    by_cases hmax : maxSize < Bytes.littleEndian (after.take w.bytes)
    · rw [if_pos hmax]
      exact .inl ⟨_, rfl, .inr rfl, rfl, rfl⟩
    · rw [if_neg hmax]
      refine .inr ⟨Bytes.littleEndian (after.take w.bytes), after.drop w.bytes, ?_,
        ⟨Bytes.littleEndian_lt_of_length hlength, Nat.le_of_not_lt hmax⟩, ?_⟩
      · rw [Bytes.ofLittleEndian_of_length hlength, List.take_append_drop]
      · rw [Bytes.ofLittleEndian_of_length hlength, offset_after_take before hsize]
  · rw [if_neg hsize]
    exact .inl ⟨_, rfl, .inl rfl, rfl, rfl⟩

theorem recognizes_readSize (w : SizeWidth) (field : Option Text) :
    (readSize w.bytes field).Recognizes (Format.size w).language := by
  intro before after n next
  rw [Accepts, readSize_append]
  constructor
  · by_cases hsize : w.bytes ≤ after.length
    · have hlength : (after.take w.bytes).length = w.bytes := List.length_take_of_le hsize
      by_cases hmax : maxSize < Bytes.littleEndian (after.take w.bytes)
      · rw [if_pos hsize, if_pos hmax]
        intro h
        obtain ⟨hvalue, _⟩ := h
        cases hvalue
      · rw [if_pos hsize, if_neg hmax]
        intro h
        obtain ⟨hvalue, rfl⟩ := h
        refine ⟨after.take w.bytes, after.drop w.bytes, (List.take_append_drop _ after).symm,
          offset_after_take before hsize, n, ?_, rfl, ?_⟩
        · rw [← Except.ok.inj hvalue]
          exact ⟨Bytes.littleEndian_lt_of_length hlength, Nat.le_of_not_lt hmax⟩
        · rw [← Except.ok.inj hvalue]
          exact (Bytes.ofLittleEndian_of_length hlength).symm
    · rw [if_neg hsize]
      intro h
      obtain ⟨hvalue, _⟩ := h
      cases hvalue
  · intro h
    obtain ⟨_, rest, rfl, rfl, m, ⟨hm, hmax⟩, hn, rfl⟩ := h
    cases hn
    have hlength : ((Format.size w).bytes n).length = w.bytes := Bytes.length_ofLittleEndian _ n
    have htake : ((Format.size w).bytes n ++ rest).take w.bytes = (Format.size w).bytes n := by
      rw [← hlength, List.take_left]
    have hround : Bytes.littleEndian ((Format.size w).bytes n) = n := Bytes.littleEndian_of_lt hm
    rw [if_pos (by rw [List.length_append]; omega), htake, hround, if_neg (Nat.not_lt.mpr hmax)]
    exact ⟨rfl, by rw [List.length_append, hlength]; rfl⟩

end Scan

end LuaBytecode
