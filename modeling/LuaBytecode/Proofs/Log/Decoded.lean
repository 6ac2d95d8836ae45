import LuaBytecode.Proofs.Decoder.Reports
import LuaBytecode.Proofs.Log.Slot
import LuaBytecode.Text.LineEnds

/-!
# The trace of a decode

A trace file with the threshold of the notes takes every note of a decode, each as one line. So what
a decode adds to it is the header, the prototypes in the order in which they are completed, and the
chunk, as far as the decode came.
-/

namespace LuaBytecode

namespace Text

theorem endsLine_of_isPrintable {c : CodePoint} (h : c.isPrintable = true) :
    endsLine c = false := by
  have hranges : ∀ range ∈ [(0x0, 0x1F), (0x7F, 0xA0), (0x2028, 0x202F)],
      range ∈ CodePoint.unprintableRanges := by decide +kernel
  have houtside : ∀ range ∈ CodePoint.unprintableRanges, ¬(range.1 ≤ c.val ∧ c.val ≤ range.2) := by
    simpa [CodePoint.isPrintable] using h
  simp only [List.forall_mem_cons] at hranges
  obtain ⟨hcontrol, hdelete, hseparator, _⟩ := hranges
  have hcontrol := houtside _ hcontrol
  have hdelete := houtside _ hdelete
  have hseparator := houtside _ hseparator
  simp only [endsLine, Bool.or_eq_false_iff, Bool.and_eq_false_iff, decide_eq_false_iff_not,
    List.contains_cons, List.contains_nil, beq_eq_false_iff_ne, and_true]
  omega

end Text

namespace Log

open Text in
/-- A note is written as one line, whatever text is quoted in it. -/
theorem Record.line_ofNote (n : Note) : ∃ line : Text,
    (ofNote n).line = line.codes.flatMap Utf8.encode ++ [0x0A] ∧
      line.isPrintable = true ∧ ∀ c ∈ line.codes, endsLine c = false := by
  obtain ⟨line, hline, hprintable⟩ := exists_line_ofNote n
  refine ⟨line, ?_, hprintable, fun c hc => ?_⟩
  · rw [Record.line, encode?_traceLine_ofNote, Option.getD_some, hline, codes_append,
      List.flatMap_append]
    rfl
  · exact endsLine_of_isPrintable (isPrintable_iff.mp hprintable c hc)

theorem filter_takes_records {file : TraceFile} (h : file.threshold = Level.debug.weight)
    (inherited : Int) (o : Options) (b : Bytes) :
    (records o b).filter (file.takes inherited) = records o b := by
  rw [List.filter_eq_self, records, List.forall_mem_map]
  intro n _
  rw [TraceFile.takes, h]
  rfl

/-- With a trace file open for all records, a decode appends a line for each of its notes, which are
those that its end calls for. -/
theorem decode_traced {s : State} (h : s.traces = []) (steps : List Step) {file : TraceFile}
    (hfile : (Step.runAll steps s).traces = [file]) (hdebug : file.threshold = Level.debug.weight)
    (o : Options) (b : Bytes) :
    Reported o b (decode o b).1 (decode o b).2 ∧
      (∀ note ∈ (decode o b).2, ∃ line : Text,
        (Record.ofNote note).line = line.codes.flatMap Utf8.encode ++ [0x0A] ∧
          line.isPrintable = true ∧ ∀ c ∈ line.codes, Text.endsLine c = false) ∧
      ∃ content, (Step.runAll steps s).files.node? file.location = some (.file content) ∧
        Appended (Step.runAll steps s) file content
          (recordLines ((decode o b).2.map Record.ofNote))
          ((Step.decode o b).run (Step.runAll steps s)) := by
  refine ⟨decode_reported o b, fun note _ => Record.line_ofNote note, ?_⟩
  cases (Slot.empty h).runAll steps with
  | empty hempty => cases hempty.symm.trans hfile
  | single hsingle =>
    rename_i file' content
    obtain rfl : file' = file := List.singleton_inj.mp (hsingle.traces.symm.trans hfile)
    have happended := hsingle.decode o b
    rw [filter_takes_records hdebug] at happended
    exact ⟨content, hsingle.node, happended⟩

def nestedNotes : List Note :=
  [.header .eight, .prototype none 44 1 0 0 0, .prototype none 120 2 0 0 0,
    .prototype none 88 1 0 0 1, .prototype none 12 0 0 0 2, .chunk 188 188]

/-- The prototypes of the sample are noted in post-order; if its end is missing, those that end
before. -/
theorem decode_traced_nestedSample :
    (emptyState.traces = [] ∧
        (Step.runAll [.openTrace samplePath 10] emptyState).traces = [sampleTrace 10] ∧
        (sampleTrace 10).threshold = Level.debug.weight) ∧
      (Step.runAll [.openTrace samplePath 10, .decode {} nestedSample.bytes]
          emptyState).files.node? sampleLocation =
        some (.file (recordLines (nestedNotes.map Record.ofNote))) ∧
      (decode {} (nestedSample.bytes.take 170)).2 = nestedNotes.take 3 := by
  have hopened : Step.runAll [.openTrace samplePath 10] emptyState = { emptyState with
      files := ⟨[(sampleLocation, .file [])]⟩, traces := [sampleTrace 10], threshold := 10 } :=
    congrArg Prod.snd (openTrace_emptyState 10)
  have htraces : (Step.runAll [.openTrace samplePath 10] emptyState).traces = [sampleTrace 10] := by
    rw [hopened]
  have hcontent : (Step.runAll [.openTrace samplePath 10] emptyState).files.node? sampleLocation =
      some (.file []) := by
    rw [hopened]
    rfl
  have hnotes : (decode {} nestedSample.bytes).2 = nestedNotes := by decide +kernel
  obtain ⟨_, _, content, hnode, happended⟩ :=
    decode_traced rfl [.openTrace samplePath 10] htraces rfl {} nestedSample.bytes
  obtain rfl : [] = content := Node.file.inj (Option.some.inj (hcontent.symm.trans hnode))
  rw [hnotes] at happended
  exact ⟨⟨rfl, htraces, rfl⟩, happended.node, by decide +kernel⟩

end Log

end LuaBytecode
