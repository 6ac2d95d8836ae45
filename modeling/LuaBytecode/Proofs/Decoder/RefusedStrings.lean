import LuaBytecode.Proofs.Decoder.Extension
import LuaBytecode.Proofs.Decoder.PolicyFaults
import LuaBytecode.Proofs.Scan.PassedStrings
import LuaBytecode.Proofs.Text.Refusals

/-!
# Where a malformed string is reported

The error for a malformed string points at the first byte that begins no character of the policy, and
the scan has then passed over the whole field. Wherever a decode meets such a string, that is where
it ends: no part of a decoder fails for a malformed string but the scan of a string field, so that
the error tells of a field that stands right before the offset at which the decode stops.
-/

namespace LuaBytecode

namespace Policy

theorem mem_cases (p : Policy) : p ∈ refusing ∨ p ∈ lossyPolicies ∨ p ∈ writingPolicies := by
  cases p <;> decide

/-- Only a policy that refuses malformed strings fails for one as malformed. -/
theorem refusing_of_read {p : Policy} {payload : Bytes} {m : Utf8.Malformed}
    (h : p.read payload = .error (.malformed m)) : p ∈ refusing := by
  rcases p.mem_cases with hp | hp | hp
  · exact hp
  · obtain ⟨t, ht⟩ := exists_read_of_lossy hp payload
    cases ht.symm.trans h
  · rcases read_eq_strict hp payload with ⟨t, ht, _⟩ | ⟨_, hrefused, _⟩
    · cases ht.symm.trans h
    · cases hrefused.symm.trans h

/-- Under the policy of any name a string is refused as malformed from one of its own bytes on. -/
theorem start_lt_of_readNamed {errors : Text} {payload : Bytes} {m : Utf8.Malformed}
    (h : readNamed errors payload = .error (.malformed m)) : m.start < payload.length := by
  unfold readNamed at h
  split at h
  · cases h
  · obtain ⟨m', cs, rest, hm, hrefused⟩ := exists_refusedFor (refusing_of_read h) h
    cases hm
    exact hrefused.start_lt
  · split at h <;> cases h

end Policy

namespace PlacedString

/-- The error tells of the field that the policy refuses its payload, and at which byte: the first
one of a malformed piece, after the longest beginning of the payload that the policy reads. -/
structure Refused (s : PlacedString) (p : Policy) (e : DecodeError) : Prop where
  kind : e.kind = .invalidString
  field : e.field = some s.name
  actual : e.actual = some (.bytes s.payload)
  offset : ∃ i : Nat, e.offset = (s.payloadStart + i : Nat) ∧
    IsGreatest {n | n ≤ s.payload.length ∧ ∃ t, p.read (s.payload.take n) = .ok t} i ∧
    ∃ reason piece rest, s.payload.drop i = piece ++ rest ∧ Utf8.Broken reason piece rest ∧
      i < s.payload.length ∧ s.buffer[s.payloadStart + i]? = piece.head?

variable {s : PlacedString} {p : Policy}

theorem getElem?_buffer {i : Nat} (hi : i < s.payload.length) :
    s.buffer[s.payloadStart + i]? = s.payload[i]? := by
  rw [s.buffer_eq, s.payloadStart_eq, List.getElem?_append_right (Nat.le_add_right _ _),
    Nat.add_sub_cancel_left, stored, StoredString.content, List.append_assoc,
    List.getElem?_append_left hi]

theorem refused_of_refusedFor (hp : p ∈ Policy.refusing) {m : Utf8.Malformed}
    {cs : List CodePoint} {rest : Bytes} (h : p.RefusedFor s.payload m cs rest) :
    s.Refused p ⟨.malformedString s.name m.reason s.payload, s.payloadStart + m.start⟩ := by
  refine ⟨rfl, rfl, rfl, m.start, rfl, h.isGreatest hp, m.reason, m.bytes, rest, h.drop_start,
    h.broken, h.start_lt, ?_⟩
  obtain ⟨b, others, hbytes⟩ := List.exists_cons_of_ne_nil h.broken.ne_nil
  have hhead := congrArg List.head? h.drop_start
  rw [List.head?_drop, hbytes] at hhead
  rw [getElem?_buffer h.start_lt, hhead, hbytes]
  rfl

/-- A policy that refuses the payload fails with the error that tells so. -/
theorem refused_of_result (hp : p ∈ Policy.refusing) {f : Fault}
    (hf : s.result p.read = .error f) :
    ∃ e, f = .decode e ∧ s.Refused p e ∧ ¬∃ t, p.read s.payload = .ok t := by
  cases hread : p.read s.payload with
  | ok t =>
    rw [s.result_of_ok hread] at hf
    cases hf
  | error g =>
    obtain ⟨m, cs, rest, rfl, hrefused⟩ := Policy.exists_refusedFor hp hread
    rw [result, hread] at hf
    cases hf
    exact ⟨_, rfl, refused_of_refusedFor hp hrefused, by simp⟩

theorem refusing_of_result {e : DecodeError} (hf : s.result p.read = .error (.decode e)) :
    p ∈ Policy.refusing := by
  unfold result at hf
  split at hf
  · cases hf
  · rename_i m hm
    exact Policy.refusing_of_read hm
  · cases hf

end PlacedString

namespace Scan

variable {α β γ δ : Type} {w : SizeWidth} {read : TextReader} {R : α → β → Prop}
  {S : γ → δ → Prop} {before after : Bytes}

/-- What a scan leaves that was started before `after`: a value, further along; or a fault that is
not about a string; or the fault of a string that it has just passed over. -/
inductive Located (w : SizeWidth) (read : TextReader) (R : α → β → Prop) (before after : Bytes) :
    Scanned α → Prop
  | ok {a : α} {b : β} {word rest : Bytes} {notes : List Note} (hafter : after = word ++ rest)
      (hvalue : R a b) : Located w read R before after ⟨.ok a, (before ++ word).length, notes⟩
  | other {f : Fault} {offset : Int} {notes : List Note}
      (hfault : ∀ e, f = .decode e → e.kind ≠ .invalidString) :
      Located w read R before after ⟨.error f, offset, notes⟩
  | refused {f : Fault} {notes : List Note} (s : PlacedString) (hwidth : s.width = w)
      (hname : s.name ∈ Decoder.textFields) (hbuffer : s.buffer = before ++ after)
      (hfault : s.result read = .error f) : Located w read R before after ⟨.error f, s.stop, notes⟩

/-- Wherever the scan fails for a string, it has just passed over the string that it fails for. The
other scan takes no part but to name the values. -/
def Locating (w : SizeWidth) (read : TextReader) (R : α → β → Prop) (s : Scan α) (_ : Scan β) :
    Prop :=
  ∀ before after : Bytes, Located w read R before after (s (before ++ after) before.length)

theorem Located.stay {a : α} {b : β} (h : R a b) (before after : Bytes) (notes : List Note) :
    Located w read R before after ⟨.ok a, before.length, notes⟩ := by
  have hstay : Located w read R before after ⟨.ok a, (before ++ []).length, notes⟩ :=
    .ok (List.nil_append after).symm h
  rwa [List.append_nil] at hstay

theorem Located.after_word {word rest : Bytes} {r : Scanned γ}
    (h : Located w read S (before ++ word) rest r) (notes : List Note) :
    Located w read S before (word ++ rest) ⟨r.result, r.offset, notes ++ r.notes⟩ := by
  cases h with
  | ok hafter hvalue =>
    subst hafter
    rw [List.append_assoc before]
    exact .ok (List.append_assoc word _ _).symm hvalue
  | other hfault => exact .other hfault
  | refused s hwidth hname hbuffer hfault =>
    exact .refused s hwidth hname (hbuffer.trans (List.append_assoc _ _ _)) hfault

theorem Locating.bind {s : Scan α} {t : Scan β} {k : α → Scan γ} {l : β → Scan δ}
    (hfirst : Locating w read R s t) (hnext : ∀ a b, R a b → Locating w read S (k a) (l b)) :
    Locating w read S (s >>= k) (t >>= l) := by
  intro before after
  have h := hfirst before after
  generalize hs : s (before ++ after) before.length = r at h
  cases h with
  | @ok a b word rest notes hafter hvalue =>
    subst hafter
    rw [bind_of_ok hs, ← List.append_assoc]
    exact (hnext a b hvalue (before ++ word) rest).after_word notes
  | other hfault =>
    rw [bind_of_error hs]
    exact .other hfault
  | refused s hwidth hname hbuffer hfault =>
    rw [bind_of_error hs]
    exact .refused s hwidth hname hbuffer hfault

theorem Stationary.locating {s : Scan α} (hs : s.Stationary) : Locating w read Eq s s := by
  intro before after
  obtain ⟨a, notes, ha⟩ := hs (before ++ after) before.length
  rw [ha]
  exact .stay rfl before after notes

theorem Takes.locating {s : Scan α} {purpose : Text} {field : Option Text} {size : Nat}
    {f : Bytes → α} (h : s.Takes purpose field size f) :
    Locating w read (fun a b => ∃ word : Bytes, word.length = size ∧ a = f word ∧ b = f word)
      s s := by
  intro before after
  rw [h before after]
  by_cases hsize : size ≤ after.length
  · rw [if_pos hsize, offset_after_take before hsize]
    exact .ok (List.take_append_drop size after).symm
      ⟨_, List.length_take_of_le hsize, rfl, rfl⟩
  · rw [if_neg hsize]
    exact .other (by simp [DecodeError.kind])

theorem Locating.readSize (w' : SizeWidth) (field : Option Text) :
    Locating w read Eq (readSize w'.bytes field) (Scan.readSize w'.bytes field) := by
  intro before after
  rcases readSize_cases w' field before after with ⟨e, hs, he⟩ | ⟨n, rest, hafter, _, hs⟩
  · rw [hs]
    exact .other (by simpa using he.ne_invalidString)
  · rw [hs]
    exact .ok hafter rfl

def Locating.simulation (w : SizeWidth) (read : TextReader) : Simulation where
  Rel := Locating w read
  pure h := fun before after => .stay h before after []
  bind := Locating.bind
  failAt offset _ h := fun _ _ => .other fun e he => by
    cases he
    exact fun hkind => h (by simp [hkind])
  position := stationary_position.locating
  takeNote n _ := (stationary_takeNote n).locating
  takes := Takes.locating
  readSize := Locating.readSize

theorem located_placed (read : TextReader) (s : PlacedString) (hname : s.name ∈ Decoder.textFields) :
    Located s.width read (Option.Rel Eq) s.before (s.stored.bytes s.width ++ s.after)
      (readString s.width.bytes read s.name s.buffer s.before.length) := by
  rw [s.readString_placed read]
  cases hresult : s.result read with
  | error f => exact .refused s rfl hname (List.append_assoc _ _ _) hresult
  | ok text =>
    have hstop : s.stop = (s.before ++ s.stored.bytes s.width).length := by
      simp only [PlacedString.stop, PlacedString.payloadStart, PlacedString.stored,
        StoredString.bytes, StoredString.content, List.length_append,
        Bytes.length_ofLittleEndian, List.length_singleton]
      omega
    have hself : Option.Rel Eq text text := by
      cases text with
      | none => exact .none
      | some t => exact .some rfl
    rw [hstop]
    exact .ok rfl hself

theorem Locating.readString {field : Text} (hfield : field ∈ Decoder.textFields) :
    Locating w read (Option.Rel Eq) (readString w.bytes read field)
      (Scan.readString w.bytes read field) := by
  intro before after
  have hruns := stringRuns w read field before after
  generalize skipString w.bytes field (before ++ after) before.length = skipped at hruns
  generalize Scan.readString w.bytes read field (before ++ after) before.length = found at hruns ⊢
  cases hruns with
  | noLength hfault => exact .other (by simpa using hfault.ne_invalidString)
  | cutShort _ _ _ => exact .other (by simp [DecodeError.kind])
  | absent hafter =>
    rw [← Bytes.length_ofLittleEndian w.bytes 0, ← List.length_append]
    exact .ok hafter .none
  | present s hwidth hname hbefore hafter =>
    subst hwidth hname hbefore hafter
    have hplaced := located_placed read s hfield
    rwa [s.readString_placed] at hplaced

end Scan

namespace Decoder

open Scan

theorem locating_readCount {w : SizeWidth} {read : TextReader} (d : Decoder) (field : Text)
    (recordSize : Nat) :
    Locating w read Eq (d.readCount field recordSize) (d.readCount field recordSize) := by
  let sim := Locating.simulation w read
  apply sim.bind_eq sim.position
  intro start
  apply sim.bind_eq (sim.takes_eq (takes_readU32 _))
  intro count
  have hcheck : sim.Rel Eq (d.checkCount start field count recordSize)
      (d.checkCount start field count recordSize) := by
    apply sim.bind_eq stationary_remaining.locating
    intro left
    by_cases hguard : d.counts = .atCount ∧ left < (count * recordSize : Nat)
    · rw [if_pos hguard]
      intro _ _
      exact .other (by simp [DecodeError.kind])
    · rw [if_neg hguard]
      exact sim.pure rfl
  apply sim.bind_eq hcheck
  intro _
  exact sim.pure rfl

/-- A decoder fails for a string only where it has just passed over that string. -/
theorem simulates_locating (d : Decoder) :
    Simulates (Locating.simulation d.width d.options.stringErrors.read) .identity d d where
  width := rfl
  instruction _ := rfl
  string _ hfield := Locating.readString hfield
  count := locating_readCount d

end Decoder

/-! ### Whole decodes -/

/-- No header is refused for a string. -/
def noString : Comparison where
  Matches f _ := ∀ e, f = .decode e → e.kind ≠ .invalidString
  Early _ := False
  matches_self _ he _ hsame := Fault.decode.inj hsame ▸ he

open Scan in
/-- A header and a main prototype that are not read for a string of the prototype. -/
theorem exists_placed_of_readTree {o : Options} {b : Bytes} {e : DecodeError}
    (he : e.kind = .invalidString) (herror : (readTree o b 0).result = .error (.decode e)) :
    ∃ s : PlacedString, s.name ∈ Decoder.textFields ∧ s.buffer = b ∧
      StoredChunk.headerBytes s.width <+: b ∧
      s.result o.stringErrors.read = .error (.decode e) ∧ (readTree o b 0).offset = s.stop := by
  rcases accepts_or_error readHeader b 0 with ⟨header, next, hheader⟩ | ⟨f, hf⟩
  · obtain ⟨_, rest, rfl, hnext, rfl⟩ := (recognizes_readHeader [] b header next).mp hheader
    rw [List.nil_append] at hnext
    subst hnext
    let d : Decoder := ⟨header.sizeWidth, o, .atCount⟩
    let sim := Locating.simulation header.sizeWidth o.stringErrors.read
    have hlocating : sim.Rel (fun _ _ => True)
        (d.readPrototype (o.maxDepth + 1) 0 >>= fun root => Pure.pure (header, root))
        (d.readPrototype (o.maxDepth + 1) 0 >>= fun root => Pure.pure (header, root)) :=
      sim.bind (d.simulates_locating.readPrototype rfl (o.maxDepth + 1) 0)
        fun _ _ _ => sim.pure trivial
    have hlocated := hlocating (StoredChunk.headerBytes header.sizeWidth) rest
    have hrun : (readTree o (StoredChunk.headerBytes header.sizeWidth ++ rest) 0).result = _ ∧
      (readTree o (StoredChunk.headerBytes header.sizeWidth ++ rest) 0).offset = _ :=
      hheader.bind _
    rw [hrun.1] at herror
    rw [hrun.2]
    generalize (d.readPrototype (o.maxDepth + 1) 0 >>= fun root => Pure.pure (header, root))
      (StoredChunk.headerBytes header.sizeWidth ++ rest)
      (StoredChunk.headerBytes header.sizeWidth).length = r at hlocated herror ⊢
    cases hlocated with
    | ok => cases herror
    | other hfault => exact absurd he (hfault e (Except.error.inj herror))
    | refused s hwidth hname hbuffer hfault =>
      cases herror
      exact ⟨s, hname, hbuffer, hwidth ▸ List.prefix_append _ rest, hfault, rfl⟩
  · have hparallel : Parallel noString Eq readHeader readHeader := readHeader_parallel
    have htree : (readTree o b 0).result = .error f := result_bind_of_error hf _
    rw [htree] at herror
    rcases (hparallel [] b).exists_error_right hf with hearly | ⟨_, _, hfault⟩
    · exact hearly.elim
    · exact absurd he (hfault e (Except.error.inj herror))

open Scan in
theorem kind_of_finishChunk {o : Options} {header : Header} {root : Prototype} {b : Bytes}
    {offset : Int} {e : DecodeError}
    (h : (finishChunk o header root b offset).result = .error (.decode e)) :
    e.kind = .trailingData := by
  unfold finishChunk at h
  rw [bind_of_ok (s := buffer) rfl, bind_of_ok (s := position) rfl] at h
  by_cases hunread : !o.allowTrailingData && decide (offset < b.length)
  · rw [if_pos hunread] at h
    cases h
    rfl
  · rw [if_neg hunread] at h
    cases h

open Scan in
/-- What ends a decode for a string is the scan of that string. -/
theorem exists_placed_of_decode {o : Options} {b : Bytes} {e : DecodeError}
    (he : e.kind = .invalidString) (herror : (decode o b).1 = .error (.decode e)) :
    ∃ s : PlacedString, s.name ∈ Decoder.textFields ∧ s.buffer = b ∧
      StoredChunk.headerBytes s.width <+: b ∧
      s.result o.stringErrors.read = .error (.decode e) ∧ bytesConsumed o b = s.stop := by
  change (readChunk o .atCount b 0).result = .error (.decode e) at herror
  rw [readChunk_eq] at herror
  rw [bytesConsumed, readChunk_eq]
  rcases hrun : readTree o b 0 with ⟨f | tree, offset, notes⟩
  · rw [bind_of_error hrun] at herror ⊢
    have htree : (readTree o b 0).result = .error (.decode e) := by
      rw [hrun, ← Except.error.inj herror]
    have hplaced := exists_placed_of_readTree he htree
    rwa [hrun] at hplaced
  · rw [bind_of_ok hrun] at herror
    cases he.symm.trans (kind_of_finishChunk herror)

/-- An error for a malformed string points at the first byte that begins no character, and the scan
has passed over the field; both where a field is read and where a decode, at any depth, ends in it. -/
theorem invalidString_at_first_malformed :
    (∀ (s : PlacedString), ∀ p ∈ Policy.refusing,
      ((∃ e : DecodeError, e.kind = .invalidString ∧
          (s.scanned p.name).result = .error (.decode e)) ↔
        ¬∃ t, p.read s.payload = .ok t) ∧
      ∀ f, (s.scanned p.name).result = .error f →
        ∃ e, f = .decode e ∧ s.Refused p e ∧
          (s.scanned p.name).offset =
            (s.before.length + s.width.bytes + s.payload.length + 1 : Nat)) ∧
    ∀ (o : Options) (b : Bytes) (e : DecodeError), (decode o b).1 = .error (.decode e) →
      e.kind = .invalidString → o.stringErrors ∈ Policy.refusing ∧
        ∃ s : PlacedString, s.name ∈ Decoder.textFields ∧ s.buffer = b ∧
          StoredChunk.headerBytes s.width <+: b ∧ s.Refused o.stringErrors e ∧
          bytesConsumed o b = (s.before.length + s.width.bytes + s.payload.length + 1 : Nat) := by
  refine ⟨fun s p hp => ?_, fun o b e herror he => ?_⟩
  · rw [s.scanned_name]
    refine ⟨⟨?_, fun hnone => ?_⟩, fun f hf => ?_⟩
    · rintro ⟨e, _, herror⟩
      obtain ⟨_, _, _, hnone⟩ := PlacedString.refused_of_result hp herror
      exact hnone
    · cases hread : p.read s.payload with
      | ok t => exact absurd ⟨t, hread⟩ hnone
      | error g =>
        obtain ⟨m, _, _, rfl, _⟩ := Policy.exists_refusedFor hp hread
        refine ⟨⟨.malformedString s.name m.reason s.payload, s.payloadStart + m.start⟩, rfl, ?_⟩
        rw [PlacedString.result, hread]
    · obtain ⟨e, rfl, hrefused, _⟩ := PlacedString.refused_of_result hp hf
      exact ⟨e, rfl, hrefused, rfl⟩
  · obtain ⟨s, hname, hbuffer, hheader, hresult, hconsumed⟩ := exists_placed_of_decode he herror
    have hp := PlacedString.refusing_of_result hresult
    obtain ⟨_, hsame, hrefused, _⟩ := PlacedString.refused_of_result hp hresult
    cases hsame
    exact ⟨hp, s, hname, hbuffer, hheader, hrefused, hconsumed⟩

/-- A prototype within another, with a source name that encodes a surrogate and a letter and breaks
off in a third character. -/
def nestedMalformed : Bytes :=
  StoredChunk.headerBytes .four ++ List.replicate 24 0x00 ++ [0x01, 0x00, 0x00, 0x00] ++
    [0x07, 0x00, 0x00, 0x00, 0xED, 0xA0, 0x80, 0x61, 0xE2, 0x82, 0x00] ++ List.replicate 48 0x00

theorem invalidString_in_nestedMalformed :
    (PlacedString.brokenName.scanned Policy.strict.name).offset = 11 ∧
      ∃ e : DecodeError, e.kind = .invalidString ∧ e.offset = 48 ∧
        (decode { stringErrors := .surrogatePass } nestedMalformed).1 = .error (.decode e) ∧
        bytesConsumed { stringErrors := .surrogatePass } nestedMalformed = 51 ∧
        ∃ s : PlacedString, s.buffer = nestedMalformed ∧ s.Refused .surrogatePass e := by
  have hplaced : (PlacedString.brokenName.scanned Policy.strict.name).result =
      .error (.decode ⟨.malformedString "local name" .startByte [0x80, 0x61, 0xE2, 0x82, 0x62],
        5⟩) := rfl
  have hdecode : (decode { stringErrors := .surrogatePass } nestedMalformed).1 = .error (.decode
      ⟨.malformedString "source name" .endOfData [0xED, 0xA0, 0x80, 0x61, 0xE2, 0x82], 48⟩) := by
    decide +kernel
  have hconsumed : bytesConsumed { stringErrors := .surrogatePass } nestedMalformed = 51 := by
    decide +kernel
  obtain ⟨_, _, _, hoffset⟩ :=
    (invalidString_at_first_malformed.1 .brokenName .strict (by decide)).2 _ hplaced
  obtain ⟨_, s, _, hbuffer, _, hrefused, _⟩ :=
    invalidString_at_first_malformed.2 { stringErrors := .surrogatePass } nestedMalformed _ hdecode
      rfl
  exact ⟨hoffset, _, rfl, rfl, hdecode, hconsumed, s, hbuffer, hrefused⟩

end LuaBytecode
