import LuaBytecode.Proofs.Decoder.Parallel
import LuaBytecode.Proofs.Grammar.Unique

/-!
# Refusing a count early

A count of records that cannot fit is refused before the first of them is read. Each kind of record
has at least the size that is taken for it, so that what is refused early would have failed anyway,
at the record that runs out of bytes.
-/

namespace LuaBytecode

namespace Scan

variable {α : Type}

def PassesAtLeast (s : Scan α) (size : Nat) : Prop :=
  ∀ (data : Bytes) (offset : Nat) (a : α) (next : Int), offset ≤ data.length →
    s.Accepts data offset a next → (offset : Int) + size ≤ next

theorem Recognizes.passesAtLeast {s : Scan α} {L : Language α} {size : Nat} (hs : s.Recognizes L)
    (hL : L.AtLeast size) : s.PassesAtLeast size := by
  intro data offset a next hoffset haccepts
  have hlength : (data.take offset).length = offset := List.length_take_of_le hoffset
  rw [← List.take_append_drop offset data] at haccepts
  nth_rewrite 3 [← hlength] at haccepts
  obtain ⟨word, rest, _, hnext, hword⟩ := (hs _ _ a next).mp haccepts
  have hbound := hL word a hword
  rw [hnext, List.length_append, hlength]
  omega

end Scan

namespace Decoder

open Scan

theorem readCount_atRecord (w : SizeWidth) (o : Options) (field : Text) (recordSize : Nat) :
    readCount ⟨w, o, .atRecord⟩ field recordSize = readU32 (some field) := by
  have hcheck : ∀ start count, checkCount ⟨w, o, .atRecord⟩ start field count recordSize =
      remaining >>= fun _ => Pure.pure () := fun _ _ => rfl
  unfold readCount
  simp only [hcheck]
  funext data offset
  rcases hread : readU32 (some field) data offset with ⟨fault | count, next, notes⟩
  · exact (bind_of_ok rfl _).trans (by rw [bind_of_error hread]; rfl)
  · refine (bind_of_ok rfl _).trans ?_
    rw [bind_of_ok hread]
    exact congrArg (Scanned.mk _ _) (List.append_nil notes)

/-- What is taken for the size of a record is no more than any record has. -/
structure LeastSizes (d : Decoder) : Prop where
  instructions : ∀ count : Nat,
    (readBytes (count * 4 : Nat) (some "instructions")).PassesAtLeast (count * 4)
  constant : (readConstant d.width.bytes d.options.stringErrors.read).PassesAtLeast 1
  prototype : ∀ levels depth, (d.readPrototype levels depth).PassesAtLeast (d.width.bytes + 36)
  lines : ∀ count : Nat, (skip (count * 4 : Nat) (some "line info")).PassesAtLeast (count * 4)
  localVariable : d.skipLocal.PassesAtLeast (d.width.bytes + 8)
  upvalueName : d.skipUpvalueName.PassesAtLeast d.width.bytes

theorem leastSizes (d : Decoder) : d.LeastSizes where
  instructions count := by
    apply (recognizes_readBytes (count * 4) _).passesAtLeast
    intro word a hword
    exact Nat.le_of_eq hword.1.symm
  constant := by
    apply (recognizes_readConstant d.width d.options.stringErrors.read).passesAtLeast
    intro word a hword
    obtain ⟨c, _, _, rfl⟩ := hword
    exact c.le_length_bytes d.width
  prototype levels depth := by
    apply (d.recognizes_readPrototype levels depth).passesAtLeast
    intro word a hword
    obtain ⟨p, _, _, rfl⟩ := hword
    exact p.le_length_bytes d.width
  lines count := by
    apply (recognizes_skip (count * 4) _).passesAtLeast
    intro word a hword
    exact Nat.le_of_eq hword.symm
  localVariable := by
    apply d.recognizes_skipLocal.passesAtLeast
    intro word a hword
    obtain ⟨l, _, _, rfl⟩ := hword
    exact l.le_length_bytes d.width
  upvalueName := by
    apply (recognizes_skipString d.width Policy.strict.read _).passesAtLeast
    intro word a hword
    obtain ⟨s, _, _, rfl⟩ := hword
    exact s.le_length_bytes d.width

/-- The comparison of a decoder that refuses a count with one that runs out of bytes. -/
def earlyRefusal : Comparison where
  Matches := Eq
  Early f := ∃ e, f = .decode e ∧ e.kind = .truncatedInput
  matches_self := Comparison.decode_refl

theorem checkCount_parallel_refusal (w : SizeWidth) (o : Options) (start : Int) (field : Text)
    (count recordSize : Nat) :
    Parallel earlyRefusal Eq (checkCount ⟨w, o, .atCount⟩ start field count recordSize)
      (checkCount ⟨w, o, .atRecord⟩ start field count recordSize) := by
  intro before after
  have hlate : checkCount ⟨w, o, .atRecord⟩ start field count recordSize (before ++ after)
      before.length = ⟨.ok (), before.length, []⟩ := by
    rw [checkCount_append]
    exact if_neg (by simp)
  rw [hlate, checkCount_append]
  by_cases hshort : after.length < count * recordSize
  · rw [if_pos ⟨rfl, hshort⟩]
    exact .early ⟨_, rfl, by simp [DecodeError.kind]⟩
  · rw [if_neg fun h => hshort h.2]
    exact Alike.stay rfl before after [] []

theorem comparable_refusal (w : SizeWidth) (o : Options) :
    Comparable earlyRefusal .identity ⟨w, o, .atCount⟩ ⟨w, o, .atRecord⟩ where
  width := rfl
  maxDepth := rfl
  instruction _ := rfl
  text start field _ := textOf_parallel_self (fun _ => rfl) o.stringErrors.read start field
  check := checkCount_parallel_refusal w o

end Decoder

/-- What is decoded if no count is refused before its records are read. -/
def decodeByRecord (options : Options) (buffer : Bytes) : Except Fault Chunk :=
  (readChunk options .atRecord buffer 0).result

theorem exists_decode_eq_error {o : Options} {b : Bytes} {f : Fault}
    (h : decodeByRecord o b = .error f) :
    ∃ g, (decode o b).1 = .error g ∧
      (g = f ∨ ∃ e, g = .decode e ∧ e.kind = .truncatedInput) := by
  have halike : Scan.Alike Decoder.earlyRefusal (Chunk.Like .identity) [] b
      (readChunk o .atCount b 0) (readChunk o .atRecord b 0) :=
    readChunk_parallel (fun w => Decoder.comparable_refusal w o) rfl [] b
  obtain ⟨g, hg, hfault⟩ := halike.exists_error_left h
  exact ⟨g, hg, hfault⟩

/-- The early refusals change neither what is accepted nor, except for a shortage of bytes that is
reported sooner, how a decode fails. -/
theorem decode_refusing_counts (o : Options) (b : Bytes) :
    (∀ w field recordSize, (Decoder.mk w o .atRecord).readCount field recordSize =
      Scan.readU32 (some field)) ∧
    (∀ c, (decode o b).1 = .ok c ↔ decodeByRecord o b = .ok c) ∧
    (∀ f, decodeByRecord o b = .error f → ∃ g, (decode o b).1 = .error g ∧
      (g = f ∨ ∃ e, g = .decode e ∧ e.kind = .truncatedInput)) ∧
    ∀ d : Decoder, d.LeastSizes := by
  refine ⟨fun w => Decoder.readCount_atRecord w o, ?_, ?_, Decoder.leastSizes⟩
  · intro c
    have hearly := readChunk_eq_ok_iff o .atCount b c
    have hlate := readChunk_eq_ok_iff o .atRecord b c
    exact hearly.trans hlate.symm
  · intro f hf
    exact exists_decode_eq_error hf

end LuaBytecode
