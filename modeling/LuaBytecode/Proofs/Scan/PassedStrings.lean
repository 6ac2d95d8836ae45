import LuaBytecode.Proofs.Scan.Inner
import LuaBytecode.Proofs.Scan.StringField

/-!
# String fields that are passed over

A string field can be read or passed over. Its length and what is left of the data settle whether
there is such a field, and if there is none both scans fail alike. If there is one both end behind
it: only then is anything decoded, and nothing depends on what comes of that.
-/

namespace LuaBytecode

theorem PlacedString.result_eq_textOf (s : PlacedString) (read : TextReader) (data : Bytes)
    (offset : Int) : s.result read =
      (Scan.textOf read s.payloadStart s.name s.payload data offset).result.map some := by
  rw [result, Scan.textOf]
  rcases read s.payload with (m | f) | t <;> rfl

/-- All of the field but its length and its last byte is the payload. -/
theorem PlacedString.slice_payload (s : PlacedString) :
    s.buffer.slice s.payloadStart ((s.stop : Int) - 1) = s.payload := by
  have hstop : (s.stop : Int) - 1 = s.payloadStart + s.payload.length := by
    rw [stop]
    omega
  rw [hstop, buffer_eq, payloadStart_eq, Scan.slice_append, stored, StoredString.content,
    List.append_assoc, List.take_left]

theorem PlacedString.skipString_placed (s : PlacedString) :
    Scan.skipString s.width.bytes s.name s.buffer s.before.length = ⟨.ok (), s.stop, []⟩ := by
  rw [Scan.skipString, Scan.bind_of_ok s.readSize_placed, buffer_eq, stop_eq, payloadStart_eq,
    Scan.takes_skip, if_pos (by rw [List.length_append]; omega)]
  rfl

namespace Scan

variable {w : SizeWidth} {read : TextReader} {field : Text}

/-! ### Inside the data -/

/-- What a scan that passes over a string field results in, and one that reads it, where the data
goes on with `after`: a length that cannot be read, a length that says more than is left, or a field
that both leave behind. -/
inductive StringRuns (w : SizeWidth) (read : TextReader) (field : Text) (before after : Bytes) :
    Scanned Unit → Scanned (Option Text) → Prop
  | noLength {e : DecodeError} (hfault : SizeFault (some (field ++ " length")) before.length e) :
    StringRuns w read field before after ⟨.error (.decode e), before.length, []⟩
      ⟨.error (.decode e), before.length, []⟩
  | cutShort {n : Nat} {rest : Bytes} (hfits : n < 256 ^ w.bytes ∧ n ≤ maxSize)
    (hafter : after = Bytes.ofLittleEndian w.bytes n ++ rest) (hshort : rest.length < n) :
    StringRuns w read field before after
      ⟨.error (.decode ⟨.shortRead "read" (some field) n rest.length,
        (before.length + w.bytes : Nat)⟩), (before.length + w.bytes : Nat), []⟩
      ⟨.error (.decode ⟨.shortRead "read" (some field) n rest.length,
        (before.length + w.bytes : Nat)⟩), (before.length + w.bytes : Nat), []⟩
  | absent {rest : Bytes} (hafter : after = Bytes.ofLittleEndian w.bytes 0 ++ rest) :
    StringRuns w read field before after ⟨.ok (), (before.length + w.bytes : Nat), []⟩
      ⟨.ok none, (before.length + w.bytes : Nat), []⟩
  | present (s : PlacedString) (hwidth : s.width = w) (hname : s.name = field)
    (hbefore : s.before = before) (hafter : after = s.stored.bytes w ++ s.after) :
    StringRuns w read field before after ⟨.ok (), s.stop, []⟩ ⟨s.result read, s.stop, []⟩

theorem stringRuns (w : SizeWidth) (read : TextReader) (field : Text) (before after : Bytes) :
    StringRuns w read field before after
      (skipString w.bytes field (before ++ after) before.length)
      (readString w.bytes read field (before ++ after) before.length) := by
  rcases readSize_cases w (some (field ++ " length")) before after with
    ⟨e, hs, he⟩ | ⟨n, rest, rfl, hfits, hs⟩
  · rw [skipString, bind_of_error hs, readString, bind_of_ok rfl, bind_of_error hs]
    exact .noLength he
  have hlength : (before ++ Bytes.ofLittleEndian w.bytes n).length = before.length + w.bytes := by
    rw [List.length_append, Bytes.length_ofLittleEndian]
  by_cases hn : n = 0
  · subst hn
    have hskip := takes_skip 0 (some field) (before ++ Bytes.ofLittleEndian w.bytes 0) rest
    rw [if_pos (Nat.zero_le _), List.append_assoc, hlength] at hskip
    rw [hlength] at hs
    rw [skipString, bind_of_ok hs, hskip, readString, bind_of_ok rfl, bind_of_ok hs, readContent,
      if_pos rfl]
    exact .absent rfl
  by_cases hrest : n ≤ rest.length
  · obtain ⟨s, rfl, rfl, rfl, hbytes⟩ := PlacedString.exists_placed w field before hfits hn hrest
    rw [← hbytes, ← List.append_assoc]
    change StringRuns _ _ _ _ _ (skipString _ _ s.buffer _) (readString _ _ _ s.buffer _)
    rw [s.skipString_placed, s.readString_placed]
    exact .present s rfl rfl rfl rfl
  · have hskip := takes_skip n (some field) (before ++ Bytes.ofLittleEndian w.bytes n) rest
    have hbytes := takes_readBytes n (some field) (before ++ Bytes.ofLittleEndian w.bytes n) rest
    rw [if_neg hrest, List.append_assoc, hlength] at hskip hbytes
    rw [hlength] at hs
    rw [skipString, bind_of_ok hs, hskip, readString, bind_of_ok rfl, bind_of_ok hs, readContent,
      if_neg hn, bind_of_error hbytes]
    exact .cutShort hfits rfl (Nat.lt_of_not_le hrest)

/-! ### At any offset -/

/-- Why no string field stands at an offset, and where that leaves a scan: sizes have no such width,
the length cannot be read, or it says more than is left. -/
inductive NoString (width : Int) (field : Text) (offset : Int) : Fault → Int → Prop
  | width (hwidth : SizeWidth.ofBytes? width = none) :
    NoString width field offset (.unsupportedWidth width) offset
  | length {e : DecodeError} (hfault : SizeFault (some (field ++ " length")) offset e) :
    NoString width field offset (.decode e) offset
  | content {e : DecodeError} (hkind : e.kind = .truncatedInput) (hfield : e.field = some field)
    (hoffset : e.offset = offset + width) :
    NoString width field offset (.decode e) (offset + width)

/-- Outside the data there is no size to read. -/
theorem readSize_of_outside {data : Bytes} {offset : Int} (h : ¬Inside data offset)
    (w : SizeWidth) (field : Option Text) :
    ∃ e, readSize w.bytes field data offset = ⟨.error (.decode e), offset, []⟩ ∧
      SizeFault field offset e := by
  have hspan : data.checkSpan offset w.bytes "integer" field =
      .error ⟨.shortRead "integer" field w.bytes (data.available offset), offset⟩ := by
    rw [Bytes.checkSpan, if_pos]
    rw [Inside] at h
    omega
  have hpeek : peekNumber w.bytes field data offset = ⟨.error (.decode
      ⟨.shortRead "integer" field w.bytes (data.available offset), offset⟩), offset, []⟩ := by
    change Scanned.mk ((data.numberAt offset w.bytes field).mapError Fault.decode) _ _ = _
    rw [Bytes.numberAt, hspan]
    rfl
  refine ⟨⟨.shortRead "integer" field w.bytes (data.available offset), offset⟩, ?_, .inl rfl, rfl,
    rfl⟩
  rw [readSize, ofBytes?_bytes]
  refine (bind_of_ok rfl _).trans ?_
  rw [bind_of_error hpeek]
  rfl

section

variable {data : Bytes} {offset width : Int} {f : Fault}

/-- Both scans read the length first. -/
theorem skipString_of_error
    (h : readSize width (some (field ++ " length")) data offset = ⟨.error f, offset, []⟩) :
    skipString width field data offset = ⟨.error f, offset, []⟩ :=
  bind_of_error h _

theorem readString_of_error
    (h : readSize width (some (field ++ " length")) data offset = ⟨.error f, offset, []⟩) :
    readString width read field data offset = ⟨.error f, offset, []⟩ := by
  rw [readString, bind_of_ok rfl, bind_of_error h]
  rfl

end

/-- At any offset and for any width, a scan that passes over a string field and one that reads it
agree on whether there is such a field, and if not on the fault. If there is one both stop behind it;
what is left to the reading scan is to make a text of the payload. -/
theorem readString_skipString (data : Bytes) (offset width : Int) (read : TextReader)
    (field : Text) :
    (∃ f next, NoString width field offset f next ∧
      skipString width field data offset = ⟨.error f, next, []⟩ ∧
      readString width read field data offset = ⟨.error f, next, []⟩) ∨
    ∃ next, skipString width field data offset = ⟨.ok (), next, []⟩ ∧
      (next = offset + width ∧
          readString width read field data offset = ⟨.ok none, next, []⟩ ∨
        offset + width < next ∧ readString width read field data offset =
          ⟨(textOf read (offset + width) field (data.slice (offset + width) (next - 1)) data
            next).result.map some, next, []⟩) := by
  cases hw : SizeWidth.ofBytes? width with
  | none =>
    have hsize : readSize width (some (field ++ " length")) data offset =
        ⟨.error (.unsupportedWidth width), offset, []⟩ := by
      rw [readSize_of_unsupported hw]
      rfl
    exact .inl ⟨_, offset, .width hw, skipString_of_error hsize, readString_of_error hsize⟩
  | some w =>
    obtain rfl := eq_bytes_of_ofBytes? hw
    by_cases hinside : Inside data offset
    · obtain ⟨before, after, rfl, rfl⟩ := hinside.exists_append
      have hruns := stringRuns w read field before after
      generalize hskip : skipString w.bytes field (before ++ after) before.length = skipped at hruns
      generalize hread : readString w.bytes read field (before ++ after) before.length = found
        at hruns
      cases hruns with
      | noLength hfault => exact .inl ⟨_, _, .length hfault, rfl, rfl⟩
      | cutShort hfits hafter hshort => exact .inl ⟨_, _, .content rfl rfl rfl, rfl, rfl⟩
      | absent hafter => exact .inr ⟨_, rfl, .inl ⟨rfl, rfl⟩⟩
      | present s hwidth hname hbefore hafter =>
        subst hwidth hname hbefore hafter
        have hstart : (s.before.length : Int) + s.width.bytes = s.payloadStart := rfl
        have hnext : (s.payloadStart : Int) < s.stop := by
          rw [PlacedString.stop]
          omega
        have hpayload := s.slice_payload
        rw [PlacedString.buffer, List.append_assoc] at hpayload
        refine .inr ⟨s.stop, rfl, .inr ⟨hstart ▸ hnext, ?_⟩⟩
        rw [hstart, hpayload, ← s.result_eq_textOf]
    · obtain ⟨e, hsize, hfault⟩ := readSize_of_outside hinside w (some (field ++ " length"))
      exact .inl ⟨_, offset, .length hfault, skipString_of_error hsize, readString_of_error hsize⟩

end Scan

end LuaBytecode
