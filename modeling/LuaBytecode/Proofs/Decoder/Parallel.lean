import LuaBytecode.Proofs.Decoder.Simulation
import LuaBytecode.Proofs.Scan.Parallel

/-!
# Two decoders side by side

Decoders differ in how they read text, in whether they name operations and in when they refuse a
count. Where two of them are compared in these three places, the comparison carries over to whole
chunks: the trees they return have the same shape, and differ in texts and instructions only as far
as the comparison lets them.
-/

namespace LuaBytecode

variable {L : Likeness}

structure Chunk.Like (L : Likeness) (c d : Chunk) : Prop where
  header : c.header = d.header
  root : c.root.Like L d.root
  raw : c.raw = d.raw

theorem Chunk.Like.eq {c d : Chunk} (h : c.Like .identity d) : c = d := by
  obtain ⟨header, root, raw⟩ := c
  obtain ⟨hheader, hroot, hraw⟩ := h
  have hroot := hroot.eq
  subst hheader hroot hraw
  rfl

theorem Scan.readHeader_parallel {cmp : Comparison} : Parallel cmp Eq readHeader readHeader := by
  let sim := Parallel.simulation cmp
  rw [readHeader_eq]
  apply sim.bind_eq sim.position
  intro start
  apply sim.bind_eq (stationary_peek 4).parallel
  intro found
  exact sim.readSigned start found

namespace Decoder

open Scan

variable {cmp : Comparison}

/-- What two decoders have to agree on for the comparison of their parts to carry over. -/
structure Comparable (cmp : Comparison) (L : Likeness) (d d' : Decoder) : Prop where
  width : d.width = d'.width
  maxDepth : d.options.maxDepth = d'.options.maxDepth
  instruction : ∀ word : Nat, L.instruction (.ofWord d.options.verboseInstructions word)
    (.ofWord d'.options.verboseInstructions word)
  text : ∀ start, ∀ field ∈ textFields, ∀ payload, Parallel cmp L.text
    (textOf d.options.stringErrors.read start field payload)
    (textOf d'.options.stringErrors.read start field payload)
  check : ∀ start field count recordSize, Parallel cmp Eq
    (d.checkCount start field count recordSize) (d'.checkCount start field count recordSize)

variable {d d' : Decoder}

theorem checkCount_parallel_self (hcounts : d.counts = d'.counts) (start : Int) (field : Text)
    (count recordSize : Nat) :
    Parallel cmp Eq (d.checkCount start field count recordSize)
      (d'.checkCount start field count recordSize) := by
  unfold checkCount
  apply (Parallel.simulation cmp).bind_eq stationary_remaining.parallel
  intro left
  rw [hcounts]
  by_cases hguard : d'.counts = .atCount ∧ left < (count * recordSize : Nat)
  · rw [if_pos hguard]
    exact .failAt start (by simp [DecodeError.kind])
  · rw [if_neg hguard]
    exact .pure rfl

theorem readCount_parallel (hcheck : ∀ start field count recordSize, Parallel cmp Eq
      (d.checkCount start field count recordSize) (d'.checkCount start field count recordSize))
    (field : Text) (recordSize : Nat) :
    Parallel cmp Eq (d.readCount field recordSize) (d'.readCount field recordSize) := by
  let sim := Parallel.simulation cmp
  apply sim.bind_eq sim.position
  intro start
  apply sim.bind_eq (sim.takes_eq (takes_readU32 _))
  intro count
  apply sim.bind_eq (hcheck start field count recordSize)
  intro _
  exact sim.pure rfl

theorem textOf_parallel_self (hmatches : ∀ f, cmp.Matches f f) (read : TextReader) (start : Int)
    (field : Text) (payload : Bytes) :
    Parallel cmp Eq (textOf read start field payload) (textOf read start field payload) := by
  unfold textOf
  split
  · exact .pure rfl
  · exact .fail (hmatches _)
  · exact .fail (hmatches _)

/-- Two decoders that are comparable stand in the relation of parallel runs. -/
theorem Comparable.simulates (h : Comparable cmp L d d') :
    Simulates (Parallel.simulation cmp) L d d' where
  width := h.width
  instruction := h.instruction
  string := readString_of_text h.width h.text
  count := readCount_parallel h.check

end Decoder

open Scan in
theorem finishChunk_parallel {cmp : Comparison} {o o' : Options}
    (htrailing : o.allowTrailingData = o'.allowTrailingData) (header : Header)
    {root root' : Prototype} (hroot : root.Like L root') :
    Parallel cmp (Chunk.Like L) (finishChunk o header root) (finishChunk o' header root') := by
  let sim := Parallel.simulation cmp
  unfold finishChunk
  apply sim.bind_eq stationary_buffer.parallel
  intro raw
  apply sim.bind_eq sim.position
  intro consumed
  rw [htrailing]
  by_cases hunread : !o'.allowTrailingData && decide (consumed < raw.length)
  · rw [if_pos hunread, if_pos hunread]
    exact .failAt consumed (by simp [DecodeError.kind])
  · rw [if_neg hunread, if_neg hunread]
    apply sim.bind_eq (sim.takeNote _ _)
    intro _
    exact sim.pure ⟨rfl, hroot, rfl⟩

open Scan in
/-- Chunks are read in parallel if the main prototypes are. -/
theorem readChunk_parallel_of_root {cmp : Comparison} {o o' : Options}
    {counts counts' : CountCheck}
    (hroot : ∀ w, Parallel cmp (Prototype.Like L)
      (Decoder.readPrototype ⟨w, o, counts⟩ (o.maxDepth + 1) 0)
      (Decoder.readPrototype ⟨w, o', counts'⟩ (o'.maxDepth + 1) 0))
    (htrailing : o.allowTrailingData = o'.allowTrailingData) :
    Parallel cmp (Chunk.Like L) (readChunk o counts) (readChunk o' counts') := by
  unfold readChunk
  apply (Parallel.simulation cmp).bind_eq readHeader_parallel
  intro header
  apply (hroot header.sizeWidth).bind
  intro root root' hlike
  exact finishChunk_parallel htrailing header hlike

open Scan in
theorem readChunk_parallel {cmp : Comparison} {o o' : Options} {counts counts' : CountCheck}
    (h : ∀ w, Decoder.Comparable cmp L ⟨w, o, counts⟩ ⟨w, o', counts'⟩)
    (htrailing : o.allowTrailingData = o'.allowTrailingData) :
    Parallel cmp (Chunk.Like L) (readChunk o counts) (readChunk o' counts') := by
  refine readChunk_parallel_of_root (fun w => ?_) htrailing
  have hlimit : o.maxDepth = o'.maxDepth := (h w).maxDepth
  rw [hlimit]
  exact (h w).simulates.readPrototype hlimit (o'.maxDepth + 1) 0

end LuaBytecode
