import LuaBytecode.Proofs.Decoder.Simulation
import LuaBytecode.Proofs.Scan.Extension

/-!
# Decoding a buffer that goes on

The counts of a chunk are compared with the bytes that are left, so that bytes after a chunk have a
part in how it is decoded. They have none in the outcome. A buffer of four bytes or more comes to one
of three things, whatever follows it: its tree is complete, it is refused, or it is short of a number
of bytes that it names. That the beginnings of a chunk are no chunks, that a refusal is final and
that a shortage is told exactly are read off from this.
-/

namespace LuaBytecode

namespace Scan

theorem readHeader_lasts {before after : Bytes} (h : 4 ≤ after.length) :
    LastsAt Eq readHeader readHeader before after := by
  have hpeek : ∀ more, (peek (4 : Nat)).Accepts (before ++ (after ++ more)) before.length
      (after.take 4) before.length := by
    intro more
    rw [Accepts, peek_append, List.take_append_of_le_length h]
    exact ⟨rfl, rfl⟩
  rw [readHeader_eq]
  refine .bind_stay rfl (fun _ => ⟨rfl, rfl⟩) ?_
  refine .bind_stay (peek_append before after 4) hpeek ?_
  exact Lasting.simulation.readSigned _ _ before after

theorem textOf_lasting (read : TextReader) (start : Int) (field : Text) (payload : Bytes) :
    Lasting Eq (textOf read start field payload) (textOf read start field payload) := by
  unfold textOf
  split
  · exact .pure rfl
  · exact .failAt _ (by simp [DecodeError.kind])
  · exact .fail (by simp)

end Scan

namespace Decoder

open Scan

variable (d : Decoder)

theorem checkCount_lasts {before after : Bytes} {start : Nat}
    (hstart : start ≤ (before ++ after).length) (field : Text) (count recordSize : Nat) :
    LastsAt Eq (d.checkCount start field count recordSize)
      (d.checkCount start field count recordSize) before after := by
  by_cases hguard : d.counts = .atCount ∧ after.length < count * recordSize
  · rw [LastsAt, checkCount_append, if_pos hguard]
    refine .short (.records field count (count * recordSize)) after.length start hguard.2 hstart
      fun more hmore => ?_
    rw [← List.length_append] at hmore ⊢
    rw [checkCount_append, if_pos ⟨hguard.1, hmore⟩]
    rfl
  · refine .stay rfl (by rw [checkCount_append, if_neg hguard]) fun more => ?_
    have hlong : ¬(d.counts = .atCount ∧ (after ++ more).length < count * recordSize) := by
      rw [List.length_append]
      intro h
      exact hguard ⟨h.1, by omega⟩
    rw [Accepts, checkCount_append, if_neg hlong]
    exact ⟨rfl, rfl⟩

theorem readCount_lasting (field : Text) (recordSize : Nat) :
    Lasting Eq (d.readCount field recordSize) (d.readCount field recordSize) := by
  intro before after
  refine .bind_stay rfl (fun _ => ⟨rfl, rfl⟩) ?_
  apply (Lasting.simulation.takes_eq (takes_readU32 (some field)) before after).bind
  intro count _ word rest hafter hcount
  subst hafter hcount
  have hstart : before.length ≤ (before ++ word ++ rest).length := by
    rw [List.append_assoc]
    exact (List.prefix_append _ _).length_le
  apply (d.checkCount_lasts hstart field count recordSize).bind
  intro _ _ word' rest' _ _
  exact Lasting.pure rfl _ _

theorem simulates_lasting : Simulates Lasting.simulation .identity d d where
  width := rfl
  instruction _ := rfl
  string := readString_of_text rfl fun start field _ =>
    textOf_lasting d.options.stringErrors.read start field
  count := d.readCount_lasting

end Decoder

/-! ### Outcomes -/

open Scan in
/-- The header and the main prototype: all of a chunk but the check of what follows it. -/
def readTree (o : Options) : Scan (Header × Prototype) := do
  let header ← readHeader
  let root ← Decoder.readPrototype ⟨header.sizeWidth, o, .atCount⟩ (o.maxDepth + 1) 0
  return (header, root)

theorem readChunk_eq (o : Options) :
    readChunk o .atCount = readTree o >>= fun tree => finishChunk o tree.1 tree.2 := by
  simp only [readChunk, readTree, bind_assoc, pure_bind]

theorem readTree_lasts (o : Options) {b : Bytes} (hb : 4 ≤ b.length) :
    Scan.LastsAt Eq (readTree o) (readTree o) [] b := by
  apply (Scan.readHeader_lasts hb).bind
  intro header _ word rest _ hheader
  subst hheader
  let d : Decoder := ⟨header.sizeWidth, o, .atCount⟩
  apply (d.simulates_lasting.readPrototype rfl (o.maxDepth + 1) 0 ([] ++ word) rest).bind
  intro root root' _ _ _ hroot
  exact Scan.Lasting.pure (by rw [hroot.eq]) _ _

/-- How many bytes a decode passes over. -/
def bytesConsumed (o : Options) (b : Bytes) : Int := (readChunk o .atCount b 0).offset

/-- What a decode of `b` comes to, whatever follows `b`. -/
inductive Outcome (o : Options) (b : Bytes) : Prop
  | complete (header : Header) (root : Prototype) (word rest : Bytes) (hbytes : b = word ++ rest)
      (hconsumed : ∀ more, bytesConsumed o (b ++ more) = word.length)
      (hdecode : ∀ more, (decode o (b ++ more)).1 =
        if rest ++ more = [] ∨ o.allowTrailingData then .ok ⟨header, root, b ++ more⟩
        else .error (.decode ⟨.unreadBytes (b ++ more).length, word.length⟩))
  | refused (f : Fault) (hfault : ∀ e, f = .decode e → e.kind ≠ .truncatedInput)
      (hdecode : ∀ more, (decode o (b ++ more)).1 = .error f)
  | short (s : Shortage) (available start : Nat) (hshort : available < s.needed)
      (hstart : start ≤ b.length)
      (hdecode : ∀ more : Bytes, available + more.length < s.needed →
        (decode o (b ++ more)).1 = .error (.decode (s.error (available + more.length) start)))

theorem decode_of_readTree_eq_error {o : Options} {b : Bytes} {f : Fault}
    (h : (readTree o b 0).result = .error f) : (decode o b).1 = .error f := by
  change (readChunk o .atCount b 0).result = .error f
  rw [readChunk_eq]
  exact Scan.result_bind_of_error h _

theorem readChunk_of_readTree_accepts {o : Options} {word rest : Bytes} {header : Header}
    {root : Prototype}
    (h : (readTree o).Accepts (word ++ rest) 0 (header, root) word.length) :
    (readChunk o .atCount (word ++ rest) 0).result =
        (if rest = [] ∨ o.allowTrailingData then .ok ⟨header, root, word ++ rest⟩
        else .error (.decode ⟨.unreadBytes (word ++ rest).length, word.length⟩)) ∧
      (readChunk o .atCount (word ++ rest) 0).offset = word.length := by
  have hfinish := h.bind fun tree => finishChunk o tree.1 tree.2
  rw [readChunk_eq, hfinish.1, hfinish.2, finishChunk_append]
  by_cases hallowed : rest = [] ∨ o.allowTrailingData = true
  · rw [if_pos hallowed, if_pos hallowed]
    exact ⟨rfl, rfl⟩
  · rw [if_neg hallowed, if_neg hallowed]
    exact ⟨rfl, rfl⟩

theorem outcome (o : Options) {b : Bytes} (hb : 4 ≤ b.length) : Outcome o b := by
  have hlasts := readTree_lasts o hb
  unfold Scan.LastsAt at hlasts
  generalize readTree o ([] ++ b) _ = r at hlasts
  cases hlasts with
  | @ok tree _ word rest _ _ hbytes htree hlong =>
    obtain ⟨header, root⟩ := tree
    subst hbytes htree
    have hread : ∀ more, (readTree o).Accepts (word ++ (rest ++ more)) 0 (header, root)
        word.length := by
      intro more
      rw [← List.append_assoc]
      exact hlong more
    refine .complete header root word rest rfl (fun more => ?_) fun more => ?_
    · rw [List.append_assoc]
      exact (readChunk_of_readTree_accepts (hread more)).2
    · rw [List.append_assoc]
      exact (readChunk_of_readTree_accepts (hread more)).1
  | @error f _ _ _ hfault hlong =>
    exact .refused f hfault fun more => decode_of_readTree_eq_error (hlong more)
  | short s available start hshort hstart hlong =>
    exact .short s available start hshort hstart
      fun more hmore => decode_of_readTree_eq_error (hlong more hmore)

theorem decode_eq_badSignature (o : Options) {b : Bytes} (hb : b.length < 4) :
    (decode o b).1 = .error (.decode ⟨.badSignature b, 0⟩) := by
  have hsignature : b ≠ Header.signature := by
    rintro rfl
    exact absurd hb (by decide)
  have hsigned : (Scan.readSigned 0 b b 0).result = .error (.decode ⟨.badSignature b, 0⟩) := by
    rw [Scan.readSigned, if_pos hsignature]
    rfl
  have hposition : Scan.position.Accepts b 0 0 0 := ⟨rfl, rfl⟩
  have hpeek : (Scan.peek 4).Accepts b 0 b 0 := by
    have hall := Scan.peek_append [] b 4
    rw [List.take_of_length_le (Nat.le_of_lt hb)] at hall
    exact ⟨congrArg Scanned.result hall, congrArg Scanned.offset hall⟩
  have hheader : (Scan.readHeader b 0).result = .error (.decode ⟨.badSignature b, 0⟩) := by
    rw [Scan.readHeader_eq, (hposition.bind _).1, (hpeek.bind _).1, hsigned]
  exact decode_of_readTree_eq_error (Scan.result_bind_of_error hheader _)

/-- A chunk that is returned is the outcome of a complete tree. -/
theorem exists_of_decode_eq_ok {o : Options} {b : Bytes} {c : Chunk} (hc : (decode o b).1 = .ok c) :
    ∃ word rest : Bytes, b = word ++ rest ∧ (rest = [] ∨ o.allowTrailingData) ∧
      (∀ more, bytesConsumed o (b ++ more) = word.length) ∧
      ∀ more, (decode o (b ++ more)).1 =
        if rest ++ more = [] ∨ o.allowTrailingData then .ok { c with raw := b ++ more }
        else .error (.decode ⟨.unreadBytes (b ++ more).length, word.length⟩) := by
  have hb : 4 ≤ b.length := by
    by_contra hfew
    rw [decode_eq_badSignature o (Nat.lt_of_not_le hfew)] at hc
    cases hc
  cases outcome o hb with
  | complete header root word rest hbytes hconsumed hdecode =>
    have hself := hdecode []
    rw [List.append_nil, List.append_nil, hc] at hself
    by_cases hallowed : rest = [] ∨ o.allowTrailingData = true
    · rw [if_pos hallowed] at hself
      cases hself
      exact ⟨word, rest, hbytes, hallowed, hconsumed, hdecode⟩
    · rw [if_neg hallowed] at hself
      cases hself
  | refused f hfault hdecode =>
    have hself := hdecode []
    rw [List.append_nil, hc] at hself
    cases hself
  | short s available start hshort hstart hdecode =>
    have hself := hdecode [] hshort
    rw [List.append_nil, hc] at hself
    cases hself

/-- An error tells of bytes after the tree, is final, or is a shortage. -/
theorem decode_error_cases {o : Options} {b : Bytes} {e : DecodeError} (hb : 4 ≤ b.length)
    (he : (decode o b).1 = .error (.decode e)) :
    e.kind = .trailingData ∨
    (e.kind ≠ .truncatedInput ∧ ∀ more, (decode o (b ++ more)).1 = .error (.decode e)) ∨
    ∃ (s : Shortage) (available start : Nat), e = s.error available start ∧
      available < s.needed ∧ start ≤ b.length ∧
      ∀ more : Bytes, available + more.length < s.needed →
        (decode o (b ++ more)).1 = .error (.decode (s.error (available + more.length) start)) := by
  have hself : (decode o (b ++ [])).1 = .error (.decode e) := by rwa [List.append_nil]
  cases outcome o hb with
  | complete header root word rest _ _ hdecode =>
    rw [hdecode []] at hself
    split at hself
    · cases hself
    · cases hself
      exact .inl rfl
  | refused f hfault hdecode =>
    rw [hdecode []] at hself
    cases hself
    exact .inr (.inl ⟨hfault e rfl, hdecode⟩)
  | short s available start hshort hstart hdecode =>
    rw [hdecode [] hshort] at hself
    cases hself
    exact .inr (.inr ⟨s, available, start, rfl, hshort, hstart, hdecode⟩)

/-! ### Beginnings of a chunk -/

/-- What a decode passes over has no beginning, but for the whole of it, that is a chunk: it is
short of bytes, or too short for a signature. -/
theorem decode_take {o : Options} {b : Bytes} {c : Chunk} {m : Nat} (hc : (decode o b).1 = .ok c)
    (hm : m < bytesConsumed o b) :
    (m < 4 → ∃ e, (decode o (b.take m)).1 = .error (.decode e) ∧ e.kind = .format ∧
      e.field = some "signature" ∧ e.actual = some (.bytes (b.take m))) ∧
    (4 ≤ m → ∃ e, (decode o (b.take m)).1 = .error (.decode e) ∧ e.kind = .truncatedInput) := by
  obtain ⟨word, rest, hbytes, _, hconsumed, _⟩ := exists_of_decode_eq_ok hc
  have hword : m < word.length := by
    have hall := hconsumed []
    rw [List.append_nil] at hall
    omega
  have hlength : (b.take m).length = m := by
    rw [hbytes, List.length_take_of_le]
    rw [List.length_append]
    omega
  constructor
  · intro hfew
    exact ⟨_, decode_eq_badSignature o (by rwa [hlength]), rfl, rfl, rfl⟩
  · intro hmany
    have hwhole : b.take m ++ b.drop m = b := List.take_append_drop m b
    have htake : 4 ≤ (b.take m).length := by rwa [hlength]
    cases outcome o htake with
    | complete header root word' rest' hbytes' hconsumed' _ =>
      -- The tree would also be that of the whole buffer, of which more is passed over.
      have hsame := hconsumed' (b.drop m)
      have hall := hconsumed []
      have hinside : word'.length ≤ m := by
        calc word'.length
            ≤ (word' ++ rest').length := (List.prefix_append _ _).length_le
          _ = (b.take m).length := by rw [hbytes']
          _ = m := hlength
      rw [hwhole] at hsame
      rw [List.append_nil] at hall
      omega
    | refused f _ hdecode =>
      -- A refusal would stand for the whole buffer, which decodes.
      have hf := hdecode (b.drop m)
      rw [hwhole, hc] at hf
      cases hf
    | short s available start hshort _ hdecode =>
      have hself := hdecode [] hshort
      rw [List.append_nil] at hself
      exact ⟨_, hself, s.kind_error _ _⟩

/-- A function of one instruction and one string. -/
def constantSample : StoredChunk where
  width := .four
  root := .node
    ⟨.absent, 0, 0, 0, 0, 0, 2, [0x0080001E], [.string (.present [0x61] 0)]⟩ [] ⟨[], [], []⟩
  trailing := []

def constantTree : Prototype :=
  .node ⟨none, 0, 0, 0, 0, 0, 2, [⟨0x0080001E, none⟩], [.string (some "a")]⟩ []

theorem decode_constantSample_take :
    (decode {} constantSample.bytes).1 = .ok ⟨⟨.four⟩, constantTree, constantSample.bytes⟩ ∧
      bytesConsumed {} constantSample.bytes = 63 ∧
      (∃ e, (decode {} (constantSample.bytes.take 3)).1 = .error (.decode e) ∧ e.kind = .format ∧
        e.field = some "signature" ∧ e.actual = some (.bytes [0x1B, 0x4C, 0x75])) ∧
      ∃ e, (decode {} (constantSample.bytes.take 46)).1 = .error (.decode e) ∧
        e.kind = .truncatedInput := by
  have hdecode : (decode {} constantSample.bytes).1 =
      .ok ⟨⟨.four⟩, constantTree, constantSample.bytes⟩ := by decide +kernel
  have hconsumed : bytesConsumed {} constantSample.bytes = 63 := by decide +kernel
  refine ⟨hdecode, hconsumed, ?_, ?_⟩
  · exact (decode_take hdecode (m := 3) (by rw [hconsumed]; decide)).1 (by decide)
  · exact (decode_take hdecode (m := 46) (by rw [hconsumed]; decide)).2 (by decide)

/-! ### What follows a buffer -/

/-- The outcome of a decode depends on the bytes that it passes over only: more bytes after them
change neither what is returned, but for the bytes that are kept with it, nor a refusal. -/
theorem decode_append (o : Options) {b : Bytes} (hb : 4 ≤ b.length) (s : Bytes) :
    (o.allowTrailingData = true → ∀ c, (decode o b).1 = .ok c →
      (decode o (b ++ s)).1 = .ok { c with raw := b ++ s }) ∧
    (o.allowTrailingData = false → s ≠ [] → ∀ c, (decode o b).1 = .ok c →
      ∃ e, (decode o (b ++ s)).1 = .error (.decode e) ∧ e.kind = .trailingData ∧
        e.offset = b.length ∧ e.actual = some (.number b.length) ∧
        e.expected = some (.number (b ++ s).length)) ∧
    ∀ e, (decode o b).1 = .error (.decode e) →
      e.kind ∈ [.format, .range, .unrecognizedConstantTag, .nestingDepth, .invalidString] →
      (decode o (b ++ s)).1 = .error (.decode e) := by
  refine ⟨?_, ?_, ?_⟩
  · intro hallowed c hc
    obtain ⟨word, rest, _, _, _, hdecode⟩ := exists_of_decode_eq_ok hc
    rw [hdecode s, if_pos (.inr hallowed)]
  · intro hrefused hs c hc
    obtain ⟨word, rest, hbytes, hallowed, _, hdecode⟩ := exists_of_decode_eq_ok hc
    have hrest : rest = [] := hallowed.resolve_right (by simp [hrefused])
    have hword : word = b := by rw [hbytes, hrest, List.append_nil]
    subst hrest hword
    have hlong := hdecode s
    rw [List.nil_append, if_neg (by simp [hs, hrefused])] at hlong
    exact ⟨_, hlong, rfl, rfl, rfl, rfl⟩
  · intro e he hkind
    rcases decode_error_cases hb he with htrailing | ⟨_, hfinal⟩ | ⟨t, available, start, rfl, _⟩
    · simp [htrailing] at hkind
    · exact hfinal s
    · simp at hkind

theorem decode_constantSample_append :
    (decode { allowTrailingData := true } (constantSample.bytes ++ [0xAA])).1 =
        .ok ⟨⟨.four⟩, constantTree, constantSample.bytes ++ [0xAA]⟩ ∧
      (∃ e, (decode {} (constantSample.bytes ++ [0xAA])).1 = .error (.decode e) ∧
        e.kind = .trailingData ∧ e.offset = 63 ∧ e.actual = some (.number 63) ∧
        e.expected = some (.number 64)) ∧
      (decode {} (Header.signature ++ [0x52] ++ [0xAA])).1 =
        .error (.decode ⟨.badHeaderByte .version 0x52, 4⟩) := by
  have hallowed : (decode { allowTrailingData := true } constantSample.bytes).1 =
      .ok ⟨⟨.four⟩, constantTree, constantSample.bytes⟩ := by decide +kernel
  have hrefused : (decode {} constantSample.bytes).1 =
      .ok ⟨⟨.four⟩, constantTree, constantSample.bytes⟩ := by decide +kernel
  have hversion : (decode {} (Header.signature ++ [0x52])).1 =
      .error (.decode ⟨.badHeaderByte .version 0x52, 4⟩) := by decide +kernel
  have hlong : 4 ≤ constantSample.bytes.length := by decide
  refine ⟨?_, ?_, ?_⟩
  · exact (decode_append { allowTrailingData := true } hlong [0xAA]).1 rfl _ hallowed
  · exact (decode_append {} hlong [0xAA]).2.1 rfl (by decide) _ hrefused
  · exact (decode_append {} (by decide) [0xAA]).2.2 _ hversion (by decide)

/-- A decode that is short of bytes tells how many it misses: with fewer it is short of the rest of
them, in the same place. -/
theorem decode_append_of_short {o : Options} {b : Bytes} {e : DecodeError}
    (he : (decode o b).1 = .error (.decode e)) (hkind : e.kind = .truncatedInput) :
    ∃ needed available start : Nat, e.expected = some (.number needed) ∧
      e.actual = some (.number available) ∧ e.offset = start ∧ available < needed ∧
      start ≤ b.length ∧
      ∀ s : Bytes, s.length < needed - available →
        (∃ e', (decode o (b ++ s)).1 = .error (.decode e') ∧ e'.kind = .truncatedInput ∧
          e'.offset = e.offset ∧ e'.field = e.field ∧ e'.expected = e.expected ∧
          e'.actual = some (.number (available + s.length : Nat))) ∧
        ¬∃ c, (decode o (b ++ s)).1 = .ok c := by
  have hb : 4 ≤ b.length := by
    by_contra hfew
    rw [decode_eq_badSignature o (Nat.lt_of_not_le hfew)] at he
    cases he
    cases hkind
  rcases decode_error_cases hb he with
    htrailing | ⟨hother, _⟩ | ⟨t, available, start, rfl, hshort, hstart, hdecode⟩
  · rw [htrailing] at hkind
    cases hkind
  · exact absurd hkind hother
  · refine ⟨t.needed, available, start, t.expected_error _ _, t.actual_error _ _,
      t.offset_error _ _, hshort, hstart, ?_⟩
    intro s hs
    have hlong := hdecode s (by omega)
    refine ⟨⟨_, hlong, by simp⟩, ?_⟩
    rintro ⟨c, hc⟩
    cases hc.symm.trans hlong

/-- With one byte of its instruction the sample is three bytes short, told at the count, and with two
more bytes of anything it is short of the last. -/
theorem decode_constantSample_short :
    (decode {} (constantSample.bytes.take 33)).1 =
        .error (.decode ⟨.shortRecords "instruction count" 1 4 1, 28⟩) ∧
      (∃ e, (decode {} (constantSample.bytes.take 33 ++ [0xAA, 0xBB])).1 = .error (.decode e) ∧
        e.kind = .truncatedInput ∧ e.offset = 28 ∧ e.field = some "instruction count" ∧
        e.expected = some (.number 4) ∧ e.actual = some (.number 3)) ∧
      ¬∃ c, (decode {} (constantSample.bytes.take 33 ++ [0xAA, 0xBB])).1 = .ok c := by
  have hshort : (decode {} (constantSample.bytes.take 33)).1 =
      .error (.decode ⟨.shortRecords "instruction count" 1 4 1, 28⟩) := by decide +kernel
  obtain ⟨needed, available, start, hneeded, havailable, _, _, _, hmore⟩ :=
    decode_append_of_short hshort rfl
  obtain rfl : needed = 4 := by
    simp only [DecodeError.expected, Option.some.injEq, Evidence.number.injEq] at hneeded
    omega
  obtain rfl : available = 1 := by
    simp only [DecodeError.actual, Option.some.injEq, Evidence.number.injEq] at havailable
    omega
  exact ⟨hshort, hmore [0xAA, 0xBB] (by decide)⟩

end LuaBytecode
