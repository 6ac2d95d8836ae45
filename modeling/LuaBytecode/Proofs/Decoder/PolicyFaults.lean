import LuaBytecode.Proofs.Decoder.CountChecks

/-!
# Which faults come out of a decode

A decode is to fail with decode errors only. Two of the policies are made for writing text and can
be chosen all the same: under them a malformed string is no decode error but a misuse of the
policy. This is the one exception, and it is met in exactly the buffers that the strict policy
refuses for a malformed string.
-/

namespace LuaBytecode

open Scan

namespace Policy

def writingPolicies : List Policy := [.characterReference, .characterName]

theorem substitute_eq_strict {p : Policy} (h : p ∈ writingPolicies) :
    p.substitute = Policy.strict.substitute := by
  funext bytes
  rcases List.mem_pair.mp h with rfl | rfl
  · rfl
  · rfl

theorem read_eq_strict {p : Policy} (h : p ∈ writingPolicies) (payload : Bytes) :
    (∃ t, p.read payload = .ok t ∧ Policy.strict.read payload = .ok t) ∨
      ∃ m, p.read payload = .error (.policy .writingOnly) ∧
        Policy.strict.read payload = .error (.malformed m) := by
  have hprepare : p.prepare = Policy.strict.prepare := by
    rcases List.mem_pair.mp h with rfl | rfl <;> rfl
  have hrefuse : ∀ m, p.refuse m = .policy .writingOnly := by
    intro m
    rcases List.mem_pair.mp h with rfl | rfl <;> rfl
  unfold read
  rw [substitute_eq_strict h, hprepare]
  generalize Policy.strict.prepare (Utf8.pieces payload) = pieces
  cases Utf8.textOfPieces Policy.strict.substitute 0 pieces with
  | ok codes => exact .inl ⟨_, rfl, rfl⟩
  | error m => exact .inr ⟨m, congrArg Except.error (hrefuse m), rfl⟩

theorem exists_malformed {p : Policy} (h : p ∉ writingPolicies) {payload : Bytes} {f : TextFault}
    (hread : p.read payload = .error f) : ∃ m, f = .malformed m := by
  have hrefuse : ∀ m, p.refuse m = .malformed m := by
    intro m
    cases p with
    | characterReference => simp [writingPolicies] at h
    | characterName => simp [writingPolicies] at h
    | _ => rfl
  unfold read at hread
  split at hread
  · cases hread
  · rename_i m _
    exact ⟨m, (Except.error.inj hread).symm.trans (hrefuse m)⟩

end Policy

namespace Decoder

/-- The comparison of a decoder with itself that shows its faults to be decode errors. -/
def closedFaults : Comparison where
  Matches f g := f = g ∧ ∃ e, f = .decode e
  Early _ := False
  matches_self e _ := ⟨rfl, e, rfl⟩

theorem comparable_closed (w : SizeWidth) {o : Options}
    (h : o.stringErrors ∉ Policy.writingPolicies) :
    Comparable closedFaults .identity ⟨w, o, .atCount⟩ ⟨w, o, .atCount⟩ where
  width := rfl
  maxDepth := rfl
  instruction _ := rfl
  text start field _ payload := by
    unfold textOf
    cases hread : o.stringErrors.read payload with
    | ok text => exact .pure rfl
    | error f =>
      obtain ⟨m, rfl⟩ := Policy.exists_malformed h hread
      exact .fail ⟨rfl, _, rfl⟩
  check := checkCount_parallel_self rfl

def writingFaults : Comparison where
  Matches f g := (f = g ∧ ∃ e, f = .decode e ∧ e.kind ≠ .invalidString) ∨
    (f = .policy .writingOnly ∧ ∃ e, g = .decode e ∧ e.kind = .invalidString)
  Early _ := False
  matches_self e he := .inl ⟨rfl, e, rfl, he⟩

theorem comparable_writing (w : SizeWidth) {o : Options}
    (h : o.stringErrors ∈ Policy.writingPolicies) :
    Comparable writingFaults .identity ⟨w, o, .atCount⟩
      ⟨w, { o with stringErrors := .strict }, .atCount⟩ where
  width := rfl
  maxDepth := rfl
  instruction _ := rfl
  text start field _ payload := by
    unfold textOf
    rcases Policy.read_eq_strict h payload with ⟨t, hwriting, hstrict⟩ | ⟨m, hwriting, hstrict⟩
    · rw [hwriting, hstrict]
      exact .pure rfl
    · rw [hwriting, hstrict]
      exact .fail (.inr ⟨rfl, _, rfl, rfl⟩)
  check := checkCount_parallel_self rfl

end Decoder

/-- The policy is one for writing, and the strict policy refuses a string of the buffer. -/
structure WritingPolicyFails (o : Options) (b : Bytes) : Prop where
  writing : o.stringErrors ∈ Policy.writingPolicies
  refused : ∃ e, (decode { o with stringErrors := .strict } b).1 = .error (.decode e) ∧
    e.kind = .invalidString

theorem exists_decodeError {o : Options} (h : o.stringErrors ∉ Policy.writingPolicies) {b : Bytes}
    {f : Fault} (hf : (decode o b).1 = .error f) : ∃ e, f = .decode e := by
  have halike : Alike Decoder.closedFaults (Chunk.Like .identity) [] b
      (readChunk o .atCount b 0) (readChunk o .atCount b 0) :=
    readChunk_parallel (fun w => Decoder.comparable_closed w h) rfl [] b
  rcases halike.exists_error_right hf with hearly | ⟨g, _, hmatches⟩
  · exact hearly.elim
  · exact hmatches.2

section

variable {o : Options} (h : o.stringErrors ∈ Policy.writingPolicies) (b : Bytes)

include h

theorem decode_alike_strict :
    Alike Decoder.writingFaults (Chunk.Like .identity) [] b (readChunk o .atCount b 0)
      (readChunk { o with stringErrors := .strict } .atCount b 0) :=
  readChunk_parallel (fun w => Decoder.comparable_writing w h) rfl [] b

theorem decodeError_or_writingOnly {f : Fault} (hf : (decode o b).1 = .error f) :
    (∃ e, f = .decode e) ∨ f = .policy .writingOnly ∧ WritingPolicyFails o b := by
  rcases (decode_alike_strict h b).exists_error_right hf with hearly | ⟨g, hg, hmatches⟩
  · exact hearly.elim
  · rcases hmatches with ⟨_, e, he, _⟩ | ⟨hwriting, e, he, hkind⟩
    · exact .inl ⟨e, he⟩
    · rw [he] at hg
      exact .inr ⟨hwriting, h, e, hg, hkind⟩

theorem decode_eq_writingOnly {e : DecodeError}
    (he : (decode { o with stringErrors := .strict } b).1 = .error (.decode e))
    (hkind : e.kind = .invalidString) : (decode o b).1 = .error (.policy .writingOnly) := by
  obtain ⟨f, hf, hmatches | hearly⟩ := (decode_alike_strict h b).exists_error_left he
  · rcases hmatches with ⟨rfl, e', he', hkind'⟩ | ⟨rfl, _⟩
    · cases he'
      exact absurd hkind hkind'
    · exact hf
  · exact hearly.elim

end

theorem decodeError_or_eq_writingOnly {o : Options} {b : Bytes} {f : Fault}
    (hf : (decode o b).1 = .error f) : (∃ e, f = .decode e) ∨ f = .policy .writingOnly := by
  by_cases h : o.stringErrors ∈ Policy.writingPolicies
  · exact (decodeError_or_writingOnly h b hf).imp_right And.left
  · exact .inl (exists_decodeError h hf)

theorem decode_eq_writingOnly_iff (o : Options) (b : Bytes) :
    (decode o b).1 = .error (.policy .writingOnly) ↔ WritingPolicyFails o b := by
  constructor
  · intro hf
    by_cases h : o.stringErrors ∈ Policy.writingPolicies
    · rcases decodeError_or_writingOnly h b hf with ⟨e, he⟩ | ⟨_, hfails⟩
      · cases he
      · exact hfails
    · obtain ⟨e, he⟩ := exists_decodeError h hf
      cases he
  · intro hfails
    obtain ⟨h, e, he, hkind⟩ := hfails
    exact decode_eq_writingOnly h b he hkind

/-- A decode returns a chunk or fails with a decode error, but for one case: the policy is one for
writing, and the strict policy would refuse a string. -/
theorem decode_closed_iff (o : Options) (b : Bytes) :
    (((∃ c, (decode o b).1 = .ok c) ∨ ∃ e, (decode o b).1 = .error (.decode e)) ↔
      ¬WritingPolicyFails o b) ∧
    ((decode o b).1 = .error (.policy .writingOnly) ↔ WritingPolicyFails o b) := by
  have hwriting := decode_eq_writingOnly_iff o b
  refine ⟨?_, hwriting⟩
  rw [← hwriting]
  constructor
  · intro hclosed hf
    rcases hclosed with ⟨c, hc⟩ | ⟨e, he⟩
    · cases hc.symm.trans hf
    · cases he.symm.trans hf
  · intro hother
    cases hresult : (decode o b).1 with
    | ok c => exact .inl ⟨c, rfl⟩
    | error f =>
      by_cases h : o.stringErrors ∈ Policy.writingPolicies
      · rcases decodeError_or_writingOnly h b hresult with ⟨e, rfl⟩ | ⟨rfl, _⟩
        · exact .inr ⟨e, rfl⟩
        · exact absurd hresult hother
      · obtain ⟨e, rfl⟩ := exists_decodeError h hresult
        exact .inr ⟨e, rfl⟩

/-- A chunk whose only fault is its source name, the byte FF. -/
def malformedSource : Bytes :=
  StoredChunk.headerBytes .four ++ [0x02, 0x00, 0x00, 0x00, 0xFF, 0x00] ++ List.replicate 36 0x00

theorem decode_not_closed :
    ¬ ∀ (o : Options) (b : Bytes),
      (∃ c, (decode o b).1 = .ok c) ∨ ∃ e, (decode o b).1 = .error (.decode e) := by
  intro hclosed
  have hf : (decode { stringErrors := .characterReference } malformedSource).1 =
      .error (.policy .writingOnly) := by decide +kernel
  rcases hclosed { stringErrors := .characterReference } malformedSource with ⟨c, hc⟩ | ⟨e, he⟩
  · cases hc.symm.trans hf
  · cases he.symm.trans hf

end LuaBytecode
