import LuaBytecode.Proofs.Grammar.Basic
import LuaBytecode.Proofs.Text.Substitutes

/-!
# The string fields of a buffer

Where a payload is stored as a string field, the policy decides what is read of it and nothing else
does: neither the bytes around the field nor its width or its terminator. The scan passes over the
whole field, whether the payload is refused or not.
-/

namespace LuaBytecode

/-- A string field between other bytes. -/
structure PlacedString where
  width : SizeWidth
  name : Text
  before : Bytes
  payload : Bytes
  terminator : UInt8
  after : Bytes
  fits : (StoredString.present payload terminator).Fits width

namespace PlacedString

variable (s : PlacedString)

def stored : StoredString := .present s.payload s.terminator

def buffer : Bytes := s.before ++ s.stored.bytes s.width ++ s.after

def payloadStart : Nat := s.before.length + s.width.bytes

/-- Where the field ends, after the terminator. -/
def stop : Nat := s.payloadStart + s.payload.length + 1

/-- The scan of the field under the policy of that name. -/
def scanned (errors : Text) : Scanned (Option Text) :=
  Scan.readString s.width.bytes (Policy.readNamed errors) s.name s.buffer s.before.length

/-- What the scan of the field results in. -/
def result (read : TextReader) : Except Fault (Option Text) :=
  match read s.payload with
  | .ok t => .ok (some t)
  | .error (.malformed m) => .error
      (.decode ⟨.malformedString s.name m.reason s.payload, (s.payloadStart : Int) + m.start⟩)
  | .error (.policy f) => .error (.policy f)

theorem payloadStart_eq : s.payloadStart =
    (s.before ++ Bytes.ofLittleEndian s.width.bytes s.stored.content.length).length := by
  rw [List.length_append, Bytes.length_ofLittleEndian]
  rfl

theorem buffer_eq : s.buffer =
    s.before ++ Bytes.ofLittleEndian s.width.bytes s.stored.content.length ++
      (s.stored.content ++ s.after) := by
  simp only [buffer, StoredString.bytes, List.append_assoc]

theorem stop_eq : s.stop = s.payloadStart + s.stored.content.length := by
  rw [stop, stored, StoredString.content, List.length_append]
  rfl

theorem readSize_placed : Scan.readSize s.width.bytes (some (s.name ++ " length")) s.buffer
    s.before.length = ⟨.ok s.stored.content.length, s.payloadStart, []⟩ := by
  have hlength := Bytes.length_ofLittleEndian s.width.bytes s.stored.content.length
  obtain ⟨hlt, hmax⟩ : s.stored.Fits s.width := s.fits
  have hround : Bytes.littleEndian (Bytes.ofLittleEndian s.width.bytes s.stored.content.length) =
      s.stored.content.length := Bytes.littleEndian_of_lt hlt
  rw [buffer_eq, List.append_assoc, Scan.readSize_append, List.take_left' hlength, hround,
    if_pos (by rw [List.length_append]; omega), if_neg (Nat.not_lt.mpr hmax)]
  rfl

theorem readBytes_placed : Scan.readBytes s.stored.content.length (some s.name) s.buffer
    s.payloadStart = ⟨.ok s.stored.content, s.stop, []⟩ := by
  rw [buffer_eq, stop_eq, payloadStart_eq, Scan.takes_readBytes,
    if_pos (by rw [List.length_append]; omega), List.take_left]
  rfl

/-- A size and as many bytes as it says are a string field. -/
theorem exists_placed (w : SizeWidth) (field : Text) (before : Bytes) {rest : Bytes} {n : Nat}
    (hfits : n < 256 ^ w.bytes ∧ n ≤ maxSize) (hn : n ≠ 0) (hrest : n ≤ rest.length) :
    ∃ s : PlacedString, s.width = w ∧ s.name = field ∧ s.before = before ∧
      s.stored.bytes s.width ++ s.after = Bytes.ofLittleEndian w.bytes n ++ rest := by
  have hlength : (rest.take n).length = n := List.length_take_of_le hrest
  have hne : rest.take n ≠ [] := List.ne_nil_of_length_pos (by omega)
  obtain ⟨payload, terminator, hcontent⟩ :
      ∃ payload terminator, rest.take n = payload ++ [terminator] :=
    ⟨_, _, (List.dropLast_concat_getLast hne).symm⟩
  rw [hcontent] at hlength
  have hplaced : (StoredString.present payload terminator).Fits w := by
    rw [StoredString.Fits, StoredString.content, hlength]
    exact hfits
  refine ⟨⟨w, field, before, payload, terminator, rest.drop n, hplaced⟩, rfl, rfl, rfl, ?_⟩
  change Bytes.ofLittleEndian w.bytes (payload ++ [terminator]).length ++
    (payload ++ [terminator]) ++ rest.drop n = _
  rw [hlength, ← hcontent, List.append_assoc, List.take_append_drop]

/-- The policy decides on the payload alone, and the scan leaves the field behind. -/
theorem readString_placed (read : TextReader) :
    Scan.readString s.width.bytes read s.name s.buffer s.before.length =
      ⟨s.result read, s.stop, []⟩ := by
  have hsize : s.stored.content.length ≠ 0 := by simp [stored, StoredString.content]
  have hpayload : s.stored.content.dropLast = s.payload := List.dropLast_concat
  rw [Scan.readString, Scan.bind_of_ok rfl, Scan.bind_of_ok s.readSize_placed, Scan.readContent,
    if_neg hsize, Scan.bind_of_ok s.readBytes_placed, hpayload, result, Scan.textOf]
  rcases read s.payload with (m | f) | t
  · rfl
  · rfl
  · rfl

theorem scanned_name (p : Policy) :
    s.scanned p.name = ⟨s.result p.read, s.stop, []⟩ := by
  rw [scanned, Policy.readNamed_name, readString_placed]

theorem result_of_ok {read : TextReader} {t : Text} (h : read s.payload = .ok t) :
    s.result read = .ok (some t) := by
  rw [result, h]

/-- Where malformed bytes are kept as surrogates nothing of a payload is lost, and that text tells
what the other policies read: the text of a well-formed payload is the same under all of them, the
strict policy refuses exactly the other payloads, and for the bytes that are no part of a character
one policy writes nothing, one their numbers, and one a single character for each maximal malformed
piece. -/
theorem policies_agree (s : PlacedString) :
    (∃ t, (s.scanned Policy.surrogateEscape.name).result = .ok (some t) ∧
      t.restore? = some s.payload ∧
      (∀ s' : PlacedString,
        (s'.scanned Policy.surrogateEscape.name).result = .ok (some t) → s'.payload = s.payload) ∧
      (s.scanned Policy.ignore.name).result = .ok (some t.dropEscaped) ∧
      (s.scanned Policy.backslashReplace.name).result =
        .ok (some (t.writeEscaped Policy.backslashed))) ∧
    (Utf8.WellFormed s.payload → ∃ t, t.hasSurrogate = false ∧ Utf8.encode? t = some s.payload ∧
      ∀ p : Policy, (s.scanned p.name).result = .ok (some t)) ∧
    ((∃ e : DecodeError, e.kind = .invalidString ∧
      (s.scanned Policy.strict.name).result = .error (.decode e)) ↔ ¬Utf8.WellFormed s.payload) ∧
    ∃ ps, (∀ qs, Utf8.Division s.payload qs ↔ qs = ps) ∧
      (∀ reason bytes, .malformed reason bytes ∈ ps → 1 ≤ bytes.length ∧ bytes.length ≤ 3) ∧
      (s.scanned Policy.replace.name).result =
        .ok (some ⟨ps.map Utf8.Piece.replaced⟩) := by
  simp only [scanned_name]
  refine ⟨⟨_, s.result_of_ok (Policy.read_surrogateEscape _), Text.restore?_ofBytes _, ?_,
    s.result_of_ok (Policy.read_ignore _), s.result_of_ok (Policy.read_backslashReplace _)⟩,
    ?_, ?_, ?_⟩
  · intro s' hsame
    rw [s'.result_of_ok (Policy.read_surrogateEscape _), Except.ok.injEq,
      Option.some.injEq] at hsame
    have hrestored := Text.restore?_ofBytes s'.payload
    rw [hsame, Text.restore?_ofBytes] at hrestored
    exact (Option.some.inj hrestored).symm
  · rintro ⟨t, ht⟩
    exact ⟨t, Utf8.hasSurrogate_of_encode? ht, ht, fun p => s.result_of_ok (p.read_of_encode? ht)⟩
  · constructor
    · rintro ⟨e, _, herror⟩ ⟨t, ht⟩
      rw [s.result_of_ok (Policy.strict.read_of_encode? ht)] at herror
      cases herror
    · intro hmalformed
      obtain ⟨m, hm⟩ := Policy.read_strict_of_not_wellFormed hmalformed
      refine ⟨⟨.malformedString s.name m.reason s.payload, s.payloadStart + m.start⟩, rfl, ?_⟩
      rw [result, hm]
  · refine ⟨Utf8.pieces s.payload, fun qs => Utf8.division_iff, ?_,
      s.result_of_ok (Policy.read_replace _)⟩
    intro reason bytes hmem
    exact (Utf8.division_iff.mpr rfl).length_of_mem hmem

/-- A name of which one character is broken off, after a byte that belongs to nothing. -/
def brokenName : PlacedString where
  width := .four
  name := "local name"
  before := [0x07]
  payload := [0x80, 0x61, 0xE2, 0x82, 0x62]
  terminator := 0x00
  after := [0xFF]
  fits := ⟨by decide, by decide⟩

/-- A name with a character of two bytes. -/
def accentedName : PlacedString where
  width := .eight
  name := "upvalue name"
  before := []
  payload := [0x61, 0xC3, 0xA9]
  terminator := 0x62
  after := []
  fits := ⟨by decide, by decide⟩

theorem policies_agree_named :
    Utf8.WellFormed accentedName.payload ∧
      (∃ t, t.hasSurrogate = false ∧ Utf8.encode? t = some accentedName.payload ∧
        ∀ p : Policy, (accentedName.scanned p.name).result = .ok (some t)) ∧
      (∃ e : DecodeError, e.kind = .invalidString ∧
        (brokenName.scanned Policy.strict.name).result = .error (.decode e)) ∧
      ¬Utf8.WellFormed brokenName.payload := by
  have hformed : Utf8.WellFormed accentedName.payload := ⟨⟨[.ofNat 0x61, .ofNat 0xE9]⟩, by decide⟩
  have hrefused : ∃ e : DecodeError, e.kind = .invalidString ∧
      (brokenName.scanned Policy.strict.name).result = .error (.decode e) :=
    ⟨⟨.malformedString "local name" .startByte brokenName.payload, 5⟩, rfl, rfl⟩
  obtain ⟨_, hagree, _, _⟩ := policies_agree accentedName
  obtain ⟨_, _, hstrict, _⟩ := policies_agree brokenName
  exact ⟨hformed, hagree hformed, hrefused, hstrict.mp hrefused⟩

example : (brokenName.scanned "replace").result =
    .ok (some ⟨[.ofNat 0xFFFD, .ofNat 0x61, .ofNat 0xFFFD, .ofNat 0x62]⟩) := by
  rfl

end PlacedString

end LuaBytecode
