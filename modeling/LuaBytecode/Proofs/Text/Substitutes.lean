import LuaBytecode.Proofs.Options
import LuaBytecode.Proofs.Text.Division

/-!
# What policies write for malformed pieces

The text that keeps every malformed byte as a surrogate tells what the other policies write. What a
policy writes byte by byte stands there in the place of the surrogates, and what a policy writes once
for a malformed piece stands there in the place of the piece.
-/

namespace LuaBytecode

namespace Utf8

/-- The bytes are the encoding of a text without surrogates. -/
def WellFormed (data : Bytes) : Prop := ∃ t, encode? t = some data

theorem hasSurrogate_of_encode? {t : Text} {data : Bytes} (h : encode? t = some data) :
    t.hasSurrogate = false := by
  rw [Bool.eq_false_iff]
  intro hsurrogate
  rw [encode?, if_pos hsurrogate] at h
  cases h

theorem Division.broken_of_mem {data : Bytes} {ps : List Piece} (h : Division data ps)
    {reason : Reason} {bytes : Bytes} (hmem : .malformed reason bytes ∈ ps) :
    ∃ rest, Broken reason bytes rest := by
  induction h with
  | nil => cases hmem
  | char hc hrest ih =>
    cases hmem with
    | tail _ hmem => exact ih hmem
  | @malformed _ _ rest _ hbroken hrest ih =>
    cases hmem with
    | head => exact ⟨rest, hbroken⟩
    | tail _ hmem => exact ih hmem

/-- A malformed piece has one to three bytes. -/
theorem Division.length_of_mem {data : Bytes} {ps : List Piece} (h : Division data ps)
    {reason : Reason} {bytes : Bytes} (hmem : .malformed reason bytes ∈ ps) :
    1 ≤ bytes.length ∧ bytes.length ≤ 3 := by
  obtain ⟨rest, hbroken⟩ := h.broken_of_mem hmem
  exact ⟨List.length_pos_iff.mpr hbroken.ne_nil, hbroken.length_le_three⟩

end Utf8

/-- The text with what `write` gives for each byte that it keeps as a surrogate. -/
def Text.writeEscaped (write : UInt8 → List CodePoint) (t : Text) : Text :=
  ⟨t.codes.flatMap fun c =>
    if c.isEscapedByte then write (UInt8.ofNat (c.val - 0xDC00)) else [c]⟩

/-- The text without the bytes that it keeps as surrogates. -/
def Text.dropEscaped (t : Text) : Text := ⟨t.codes.filter fun c => !c.isEscapedByte⟩

theorem Text.writeEscaped_nil (t : Text) : t.writeEscaped (fun _ => []) = t.dropEscaped := by
  obtain ⟨codes⟩ := t
  rw [writeEscaped, dropEscaped, Text.mk.injEq]
  induction codes with
  | nil => rfl
  | cons c rest ih => cases hc : c.isEscapedByte <;> simp [hc, ih]

namespace Policy

/-- What stands for a byte that is no part of a character. -/
def backslashed (b : UInt8) : List CodePoint := ("\\x" ++ Text.ofHex 2 b.toNat : Text).codes

section

variable {write : UInt8 → List CodePoint}

theorem writeEscaped_escaped {q : Utf8.Piece} (hq : q.Sound) :
    (Text.writeEscaped write ⟨q.escaped⟩).codes = q.written (·.flatMap write) := by
  cases q with
  | char c =>
    simp [Text.writeEscaped, Utf8.Piece.escaped, Utf8.Piece.written,
      CodePoint.isEscapedByte_of_not_surrogate hq]
  | malformed reason bytes =>
    rw [Text.writeEscaped, Utf8.Piece.escaped, List.flatMap_map]
    refine congrArg List.flatten (List.map_congr_left fun b hb => ?_)
    rw [if_pos (isEscapedByte_escapedByte (hq b hb)), val_escapedByte, Nat.add_sub_cancel_left,
      UInt8.ofNat_toNat]

theorem writeEscaped_flatMap {ps : List Utf8.Piece} (hsound : ∀ q ∈ ps, q.Sound) :
    (Text.writeEscaped write ⟨ps.flatMap Utf8.Piece.escaped⟩).codes =
      ps.flatMap (Utf8.Piece.written (·.flatMap write)) := by
  rw [Text.writeEscaped, List.flatMap_assoc]
  exact congrArg List.flatten
    (List.map_congr_left fun q hq => writeEscaped_escaped (hsound q hq))

/-- A policy that writes byte by byte writes that in the place of the surrogates. -/
theorem read_bytewise {p : Policy}
    (hwrite : ∀ bytes, p.substitute bytes = some (bytes.flatMap write))
    (hprepare : ∀ ps, p.prepare ps = ps) (payload : Bytes) :
    p.read payload = .ok ((Text.ofBytes payload).writeEscaped write) := by
  have hcodes : ((Text.ofBytes payload).writeEscaped write).codes = _ :=
    writeEscaped_flatMap fun q hq => Utf8.sound_of_mem_pieces hq
  rw [read, hprepare, Utf8.textOfPieces_written hwrite, ← hcodes]

end

theorem read_ignore (payload : Bytes) :
    Policy.ignore.read payload = .ok (Text.ofBytes payload).dropEscaped := by
  rw [← Text.writeEscaped_nil]
  refine read_bytewise (fun bytes => ?_) (fun _ => rfl) payload
  rw [List.flatMap_eq_nil_iff.mpr fun _ _ => rfl]
  rfl

theorem read_backslashReplace (payload : Bytes) :
    Policy.backslashReplace.read payload =
      .ok ((Text.ofBytes payload).writeEscaped backslashed) :=
  read_bytewise (fun _ => rfl) (fun _ => rfl) payload

theorem read_replace (payload : Bytes) :
    Policy.replace.read payload = .ok ⟨(Utf8.pieces payload).map Utf8.Piece.replaced⟩ := by
  have hwritten : ∀ q : Utf8.Piece, q.written (fun _ => [.ofNat 0xFFFD]) = [q.replaced] := by
    intro q
    cases q with
    | char c => rfl
    | malformed reason bytes => rfl
  have hsubstitute : ∀ bytes, Policy.replace.substitute bytes = some [.ofNat 0xFFFD] :=
    fun _ => rfl
  have hprepare : Policy.replace.prepare (Utf8.pieces payload) = Utf8.pieces payload := rfl
  rw [read, hprepare, Utf8.textOfPieces_written hsubstitute, funext hwritten,
    List.map_eq_flatMap]

/-- The strict policy refuses the malformed strings, and tells where. -/
theorem read_strict_of_not_wellFormed {payload : Bytes} (h : ¬Utf8.WellFormed payload) :
    ∃ m, Policy.strict.read payload = .error (.malformed m) := by
  cases hread : Policy.strict.read payload with
  | ok t => exact absurd ⟨t, read_strict_eq_ok_iff.mp hread⟩ h
  | error f =>
    unfold read at hread
    split at hread
    · cases hread
    · cases hread
      exact ⟨_, rfl⟩

theorem readNamed_name (p : Policy) : readNamed p.name = p.read := by
  funext payload
  rw [readNamed, nameFault?_name, ofName?_eq_some_iff.mpr rfl]

end Policy

end LuaBytecode
