import LuaBytecode.Proofs.Files.Directories
import LuaBytecode.Proofs.Session
import LuaBytecode.Proofs.Text.Printable

/-!
# The trace file as a slot

Steps open trace files, close them and decode chunks, in any order and whether or not they succeed.
Of the open trace files there is at most one, and what a step does to it is told by its effect: it
fills the slot, clears it, or keeps what is there. An open trace file ends where the next record
goes, so that the records of a decode are appended to it, and no other file is touched.
-/

namespace LuaBytecode.Log

open FileTree (Grown)

/-! ### One record -/

/-- What a record adds to a trace file that takes it: nothing if it has no encoding. -/
def Record.line (r : Record) : Bytes := (Utf8.encode? r.traceLine).getD []

/-- Whether a trace file takes a record: a threshold of zero is none of its own, and then the
inherited one counts too. -/
def TraceFile.takes (file : TraceFile) (inherited : Int) (r : Record) : Bool :=
  file.threshold ≤ r.level.weight && (file.threshold ≠ 0 || inherited ≤ r.level.weight)

theorem writeAt_end {t : FileTree} {l : Location} {content : Bytes}
    (h : t.node? l = some (.file content)) (data : Bytes) :
    t.writeAt l content.length data = t.put l (.file (content ++ data)) := by
  have hend : content.drop (content.length + data.length) = [] :=
    List.drop_eq_nil_of_le (Nat.le_add_right _ _)
  rw [FileTree.writeAt, h]
  simp only [List.take_length, Nat.sub_self, List.replicate_zero, List.append_nil, hend]

/-- The bytes are appended to the one open trace file, whose content was `content`, and but for the
console nothing else has changed. -/
structure Appended (s : State) (file : TraceFile) (content data : Bytes) (s' : State) : Prop where
  traces : s'.traces = [{ file with position := file.position + data.length }]
  node : s'.files.node? file.location = some (.file (content ++ data))
  others : ∀ l, l ≠ file.location → s'.files.node? l = s.files.node? l
  threshold : s'.threshold = s.threshold
  consoleThreshold : s'.consoleThreshold = s.consoleThreshold

/-- The one open trace file ends where its next record goes, and has the threshold that was set
last. -/
structure Single (s : State) (file : TraceFile) (content : Bytes) : Prop where
  traces : s.traces = [file]
  node : s.files.node? file.location = some (.file content)
  position : file.position = content.length
  threshold : file.threshold = s.threshold

section

variable {s s' s'' : State} {file : TraceFile} {content data data' : Bytes}

theorem Appended.single (h : Appended s file content data s') (hs : Single s file content) :
    Single s' { file with position := file.position + data.length } (content ++ data) where
  traces := h.traces
  node := h.node
  position := by rw [hs.position, List.length_append]
  threshold := hs.threshold.trans h.threshold.symm

theorem Appended.trans (h : Appended s file content data s')
    (h' : Appended s' { file with position := file.position + data.length } (content ++ data) data'
      s'') : Appended s file content (data ++ data') s'' where
  traces := by rw [h'.traces, List.length_append, Nat.add_assoc]
  node := by rw [h'.node, List.append_assoc]
  others l hl := (h'.others l hl).trans (h.others l hl)
  threshold := h'.threshold.trans h.threshold
  consoleThreshold := h'.consoleThreshold.trans h.consoleThreshold

theorem Appended.nil (hs : Single s file content) (hfiles : s'.files = s.files)
    (htraces : s'.traces = s.traces) (hthreshold : s'.threshold = s.threshold)
    (hconsole : s'.consoleThreshold = s.consoleThreshold) : Appended s file content [] s' where
  traces := htraces.trans hs.traces
  node := by rw [hfiles, List.append_nil, hs.node]
  others l _ := by rw [hfiles]
  threshold := hthreshold
  consoleThreshold := hconsole

theorem takes_iff (hs : Single s file content) (r : Record) :
    file.takes s.consoleThreshold r = true ↔
      s.effectiveThreshold ≤ r.level.weight ∧ file.threshold ≤ r.level.weight := by
  rw [TraceFile.takes, State.effectiveThreshold, ← hs.threshold]
  by_cases hzero : file.threshold = 0
  · simp [hzero, and_comm]
  · simp [hzero]

theorem writeTrace_of_single (hs : Single s file content) (r : Record) : s.writeTrace r =
    { s with traces := [(file.write r s.files).1], files := (file.write r s.files).2 } := by
  rw [State.writeTrace, hs.traces]
  rfl

/-- A record is appended if the trace file takes it. -/
theorem Single.log (hs : Single s file content) (r : Record) :
    Appended s file content (if file.takes s.consoleThreshold r then r.line else []) (s.log r) := by
  have htakes := takes_iff hs r
  rw [State.log]
  by_cases heffective : r.level.weight < s.effectiveThreshold
  · have hdropped : file.takes s.consoleThreshold r = false := by
      rw [Bool.eq_false_iff, ne_eq, htakes]
      omega
    rw [if_pos heffective, hdropped]
    exact .nil hs rfl rfl rfl rfl
  rw [if_neg heffective, writeTrace_of_single hs, TraceFile.write, Record.line]
  cases Utf8.encode? r.traceLine with
  | none =>
    rw [Option.getD_none, ite_self]
    exact .nil hs rfl hs.traces.symm rfl rfl
  | some line =>
    by_cases hthreshold : r.level.weight < file.threshold
    · have hdropped : file.takes s.consoleThreshold r = false := by
        rw [Bool.eq_false_iff, ne_eq, htakes]
        omega
      simp only [if_pos hthreshold, hdropped]
      exact .nil hs rfl hs.traces.symm rfl rfl
    · have htaken : file.takes s.consoleThreshold r = true := htakes.mpr (by omega)
      have hinside := FileTree.isOutside_of_node? (t := s.files) (l := file.location)
        (by rw [hs.node]; simp)
      simp only [if_neg hthreshold, htaken, if_true, hs.position, writeAt_end hs.node]
      refine ⟨?_, FileTree.node?_put_self hinside _, fun l hl => FileTree.node?_put_of_ne hl _, rfl,
        rfl⟩
      rw [← hs.position, Option.getD_some]

/-- What a list of records adds. -/
def recordLines (rs : List Record) : Bytes := rs.flatMap Record.line

theorem Single.logAll (hs : Single s file content) (rs : List Record) :
    Appended s file content (recordLines (rs.filter (file.takes s.consoleThreshold)))
      (s.logAll rs) := by
  induction rs generalizing s file content with
  | nil => exact .nil hs rfl rfl rfl rfl
  | cons r rest ih =>
    have hfirst := hs.log r
    have hrest := ih (hfirst.single hs)
    rw [hfirst.consoleThreshold] at hrest
    have hboth := hfirst.trans hrest
    rw [List.filter_cons]
    cases htakes : file.takes s.consoleThreshold r with
    | false =>
      rw [htakes] at hboth
      exact hboth
    | true =>
      rw [htakes, if_pos rfl] at hboth
      rw [if_pos rfl, recordLines, List.flatMap_cons]
      exact hboth

end

/-! ### Opening a trace file -/

/-- To open a trace file fails at the directories above it, or at the file, or is done; what is open
already is closed in between. -/
inductive Opening (s : State) (p : Path) (threshold : Int) : Except FileFault Unit × State → Prop
  | stopped {f : FileFault} {made : FileTree}
      (hmade : (FileTree.ensureDirectories p.parent).run s.files = (.error f, made)) :
      Opening s p threshold (.error f, { s with files := made })
  | refused {f : FileFault} {made : FileTree}
      (hmade : (FileTree.ensureDirectories p.parent).run s.files = (.ok (), made))
      (hopened : (FileTree.truncate p.untilNull).run made = (.error f, made)) :
      Opening s p threshold (.error f, { s with files := made, traces := [], threshold })
  | opened {l : Location} {made opened : FileTree}
      (hmade : (FileTree.ensureDirectories p.parent).run s.files = (.ok (), made))
      (hopened : (FileTree.truncate p.untilNull).run made = (.ok l, opened)) :
      Opening s p threshold
        (.ok (), { s with files := opened, traces := [⟨l, 0, threshold⟩], threshold })

section

variable {s : State} {p : Path}

theorem openTrace_of_stopped {f : FileFault} {made : FileTree}
    (hmade : (FileTree.ensureDirectories p.parent).run s.files = (.error f, made))
    (threshold : Int) : s.openTrace p threshold = (.error f, { s with files := made }) := by
  unfold State.openTrace State.onFiles
  simp only [hmade]

theorem openTrace_of_refused {f : FileFault} {made opened : FileTree}
    (hmade : (FileTree.ensureDirectories p.parent).run s.files = (.ok (), made))
    (hopened : (FileTree.truncate p.untilNull).run made = (.error f, opened)) (threshold : Int) :
    s.openTrace p threshold = (.error f, { s with files := opened, traces := [], threshold }) := by
  unfold State.openTrace State.onFiles
  simp only [hmade, State.closeTrace, hopened]

theorem openTrace_of_opened {l : Location} {made opened : FileTree}
    (hmade : (FileTree.ensureDirectories p.parent).run s.files = (.ok (), made))
    (hopened : (FileTree.truncate p.untilNull).run made = (.ok l, opened)) (threshold : Int) :
    s.openTrace p threshold =
      (.ok (), { s with files := opened, traces := [⟨l, 0, threshold⟩], threshold }) := by
  unfold State.openTrace State.onFiles
  simp only [hmade, State.closeTrace, hopened, List.nil_append]

theorem opening (s : State) (p : Path) (threshold : Int) :
    Opening s p threshold (s.openTrace p threshold) := by
  obtain ⟨r, made, hmade⟩ : ∃ r made,
    (FileTree.ensureDirectories p.parent).run s.files = (r, made) := ⟨_, _, rfl⟩
  cases r with
  | error f =>
    rw [openTrace_of_stopped hmade]
    exact .stopped hmade
  | ok u =>
    obtain ⟨r, opened, hopened⟩ : ∃ r opened,
      (FileTree.truncate p.untilNull).run made = (r, opened) := ⟨_, _, rfl⟩
    cases r with
    | error f =>
      rw [openTrace_of_refused hmade hopened]
      obtain rfl := FileTree.truncate_run_of_error hopened
      exact .refused hmade hopened
    | ok l =>
      rw [openTrace_of_opened hmade hopened]
      exact .opened hmade hopened

end

/-! ### Steps -/

inductive Step where
  | openTrace (p : Path) (threshold : Int)
  | closeTrace
  | decode (o : Options) (b : Bytes)

/-- What a step does to the open trace file. -/
inductive Effect where
  | fills
  | clears
  | keeps
  deriving DecidableEq

namespace Step

def run : Step → State → State
  | .openTrace p threshold, s => (s.openTrace p threshold).2
  | .closeTrace, s => s.closeTrace
  | .decode o b, s => ((Session.decodeChunk o b).run s).2

/-- To open a trace file fills the slot if that succeeds; if it fails, it keeps the one before if
the directories above could not be made, and clears it if the file itself could not be opened. -/
def effect (s : State) : Step → Effect
  | .openTrace p threshold =>
    match (s.openTrace p threshold).1 with
    | .ok () => .fills
    | .error _ =>
      match ((FileTree.ensureDirectories p.parent).run s.files).1 with
      | .ok () => .clears
      | .error _ => .keeps
  | .closeTrace => .clears
  | .decode _ _ => .keeps

def runAll : List Step → State → State
  | [], s => s
  | step :: rest, s => runAll rest (step.run s)

/-- The effects of steps other than to keep what is there. -/
def changes : List Step → State → List Effect
  | [], _ => []
  | step :: rest, s =>
    if step.effect s = .keeps then changes rest (step.run s)
    else step.effect s :: changes rest (step.run s)

end Step

def records (o : Options) (b : Bytes) : List Record := (decode o b).2.map Record.ofNote

/-- No file has changed, been made or been lost, except perhaps at one location. -/
def SameFiles (s s' : State) (changed : Option Location) : Prop :=
  ∀ l, some l ≠ changed → ∀ content,
    s'.files.node? l = some (.file content) ↔ s.files.node? l = some (.file content)

/-- What each step does to the open trace file and to the files. -/
def Step.Law (s s' : State) : Step → Prop
  | .openTrace p threshold =>
    match (Step.openTrace p threshold).effect s with
    | .keeps => s'.traces = s.traces ∧ s'.threshold = s.threshold ∧ SameFiles s s' none
    | .clears => s'.traces = [] ∧ SameFiles s s' none
    | .fills => ∃ l, s'.traces = [⟨l, 0, threshold⟩] ∧ s'.files.locate p.untilNull = .ok l ∧
        s'.files.node? l = some (.file []) ∧ SameFiles s s' (some l)
  | .closeTrace => s'.traces = [] ∧ s'.files = s.files ∧ s'.closeTrace = s'
  | .decode o b =>
    (∀ r ∈ records o b, Utf8.encode? r.traceLine = some r.line) ∧
    (s.traces = [] → s'.traces = [] ∧ s'.files = s.files) ∧
    ∀ file, s.traces = [file] → ∃ content, s.files.node? file.location = some (.file content) ∧
      Appended s file content
        (recordLines ((records o b).filter (file.takes s.consoleThreshold))) s'

/-- There is at most one open trace file, and it ends where its next record goes. -/
inductive Slot (s : State) : Prop
  | empty (h : s.traces = [])
  | single {file : TraceFile} {content : Bytes} (h : Single s file content)

section

variable {s : State}

/-- Opening a trace file does what its effect says. -/
theorem openTrace_law (s : State) (p : Path) (threshold : Int) :
    (Step.openTrace p threshold).Law s (s.openTrace p threshold).2 := by
  have hgrown := FileTree.ensureDirectories_grown p.parent s.files
  obtain ⟨result, hresult, hopening⟩ : ∃ result, s.openTrace p threshold = result ∧
    Opening s p threshold result := ⟨_, rfl, opening s p threshold⟩
  simp only [Step.Law, Step.effect, hresult]
  cases hopening with
  | stopped hmade =>
    rw [hmade] at hgrown
    simp only [hmade, true_and]
    exact fun l _ content => hgrown.file_iff
  | refused hmade hopened =>
    rw [hmade] at hgrown
    simp only [hmade, true_and]
    exact fun l _ content => hgrown.file_iff
  | opened hmade hopened =>
    rename_i l made opened
    rw [hmade] at hgrown
    obtain ⟨hlocate, hnode, rfl⟩ := FileTree.truncate_run_eq_ok_iff.mp hopened
    have hempty := FileTree.node?_put_self (t := made) (FileTree.isOutside_of_node? hnode) (.file [])
    refine ⟨l, rfl, FileTree.locate_put hnode _ hlocate, hempty, fun m hm content => ?_⟩
    have hne : m ≠ l := fun heq => hm (congrArg some heq)
    rw [FileTree.node?_put_of_ne hne]
    exact hgrown.file_iff

theorem Single.of_grown {file : TraceFile} {content : Bytes} (h : Single s file content)
    {made : FileTree} (hmade : s.files.Grown made) :
    Single { s with files := made } file content where
  traces := h.traces
  node := hmade.file_iff.mpr h.node
  position := h.position
  threshold := h.threshold

theorem Slot.openTrace (h : Slot s) (p : Path) (threshold : Int) :
    Slot (s.openTrace p threshold).2 := by
  have hgrown := FileTree.ensureDirectories_grown p.parent s.files
  obtain ⟨result, hresult, hopening⟩ : ∃ result, s.openTrace p threshold = result ∧
    Opening s p threshold result := ⟨_, rfl, opening s p threshold⟩
  rw [hresult]
  cases hopening with
  | stopped hmade =>
    rw [hmade] at hgrown
    cases h with
    | empty h => exact .empty h
    | single h => exact .single (h.of_grown hgrown)
  | refused hmade hopened => exact .empty rfl
  | opened hmade hopened =>
    rename_i l made opened
    obtain ⟨_, hnode, rfl⟩ := FileTree.truncate_run_eq_ok_iff.mp hopened
    have hempty := FileTree.node?_put_self (t := made) (FileTree.isOutside_of_node? hnode) (.file [])
    exact .single ⟨rfl, hempty, rfl, rfl⟩

theorem run_decode (o : Options) (b : Bytes) :
    (Step.decode o b).run s = s.logAll (records o b) :=
  congrArg Prod.snd (Session.run_decodeChunk o b)

theorem Single.decode {file : TraceFile} {content : Bytes} (h : Single s file content)
    (o : Options) (b : Bytes) : Appended s file content
      (recordLines ((records o b).filter (file.takes s.consoleThreshold)))
      ((Step.decode o b).run s) := by
  rw [run_decode]
  exact h.logAll _

theorem encode?_traceLine_of_mem_records {o : Options} {b : Bytes} {r : Record}
    (h : r ∈ records o b) : Utf8.encode? r.traceLine = some r.line := by
  obtain ⟨note, _, rfl⟩ := List.mem_map.mp h
  rw [Record.line, Record.encode?_traceLine_ofNote note]
  rfl

theorem quiet_decode (h : s.traces = []) (o : Options) (b : Bytes) :
    State.Quiet s ((Step.decode o b).run s) := by
  obtain ⟨s', hrun, hquiet⟩ := Session.gives_decodeChunk h o b
  rw [Step.run, hrun]
  exact hquiet

theorem Slot.step (h : Slot s) (step : Step) : Slot (step.run s) := by
  cases step with
  | openTrace p threshold => exact h.openTrace p threshold
  | closeTrace => exact .empty rfl
  | decode o b =>
    cases h with
    | empty h => exact .empty (quiet_decode h o b).trace
    | single h => exact .single ((h.decode o b).single h)

theorem Slot.law (h : Slot s) (step : Step) : step.Law s (step.run s) := by
  cases step with
  | openTrace p threshold => exact openTrace_law s p threshold
  | closeTrace => exact ⟨rfl, rfl, rfl⟩
  | decode o b =>
    refine ⟨fun r => encode?_traceLine_of_mem_records, ?_, ?_⟩
    · intro hempty
      have hquiet := quiet_decode hempty o b
      exact ⟨hquiet.trace, hquiet.files⟩
    · intro file hfile
      cases h with
      | empty h => cases h.symm.trans hfile
      | single h =>
        rename_i file' content
        obtain rfl : file' = file := List.singleton_inj.mp (h.traces.symm.trans hfile)
        exact ⟨content, h.node, h.decode o b⟩

/-! ### Sequences of steps -/

/-- How many trace files are open after a step, from how many were before. -/
def Effect.count : Effect → Nat → Nat
  | .fills, _ => 1
  | .clears, _ => 0
  | .keeps, n => n

theorem Effect.count_zero_le (e : Effect) : e.count 0 ≤ 1 := by
  cases e <;> decide

theorem Effect.count_zero_eq_one_iff {e : Effect} : e.count 0 = 1 ↔ e = .fills := by
  cases e <;> decide

theorem Effect.count_eq_of_ne {e : Effect} (h : e ≠ .keeps) (n m : Nat) :
    e.count n = e.count m := by
  cases e with
  | fills => rfl
  | clears => rfl
  | keeps => exact absurd rfl h

theorem Step.ne_keeps_of_mem_changes {steps : List Step} {e : Effect} (h : e ∈ changes steps s) :
    e ≠ .keeps := by
  induction steps generalizing s with
  | nil => cases h
  | cons step rest ih =>
    rw [changes] at h
    split at h
    · exact ih h
    · rename_i hstep
      rcases List.mem_cons.mp h with rfl | hrest
      · exact hstep
      · exact ih hrest

theorem Slot.openCount_step (h : Slot s) (step : Step) :
    (step.run s).openCount = (step.effect s).count s.openCount := by
  have hlaw := h.law step
  unfold State.openCount
  cases step with
  | openTrace p threshold =>
    rw [Step.Law] at hlaw
    cases heffect : (Step.openTrace p threshold).effect s with
    | fills =>
      simp only [heffect] at hlaw
      obtain ⟨l, htraces, _⟩ := hlaw
      rw [htraces]
      rfl
    | clears =>
      simp only [heffect] at hlaw
      rw [hlaw.1]
      rfl
    | keeps =>
      simp only [heffect] at hlaw
      rw [hlaw.1]
      rfl
  | closeTrace => rfl
  | decode o b =>
    cases h with
    | empty h => rw [(quiet_decode h o b).trace, h]; rfl
    | single h => rw [(h.decode o b).traces, h.traces]; rfl

theorem Slot.runAll (h : Slot s) (steps : List Step) : Slot (Step.runAll steps s) := by
  induction steps generalizing s with
  | nil => exact h
  | cons step rest ih => exact ih (h.step step)

/-- Only the last change tells how many trace files are open. -/
theorem Slot.openCount_runAll (h : Slot s) (steps : List Step) :
    (Step.runAll steps s).openCount =
      (((Step.changes steps s).getLast?).getD .keeps).count s.openCount := by
  induction steps generalizing s with
  | nil => rfl
  | cons step rest ih =>
    have hstep := h.openCount_step step
    rw [Step.runAll, ih (h.step step), hstep, Step.changes]
    by_cases hkeeps : step.effect s = .keeps
    · rw [if_pos hkeeps, hkeeps, Effect.count]
    · rw [if_neg hkeeps, List.getLast?_cons, Option.getD_some]
      cases hlast : (Step.changes rest (step.run s)).getLast? with
      | none => rfl
      | some e =>
        have hchange := Step.ne_keeps_of_mem_changes (List.mem_of_getLast? hlast)
        exact Effect.count_eq_of_ne hchange _ _

/-- However trace files are opened and closed and chunks are decoded, there is at most one open trace
file; there is one just if the last step that filled or cleared the slot filled it; and every step
does from there what is said of it. -/
theorem Slot.runAll_law (h : s.traces = []) (steps : List Step) :
    (Step.runAll steps s).openCount ≤ 1 ∧
      ((Step.runAll steps s).openCount = 1 ↔ (Step.changes steps s).getLast? = some .fills) ∧
      ∀ step, Step.Law (Step.runAll steps s) (step.run (Step.runAll steps s)) step := by
  have hcount := (Slot.empty h).openCount_runAll steps
  rw [show s.openCount = 0 from congrArg List.length h] at hcount
  have hfills : (Step.changes steps s).getLast?.getD .keeps = .fills ↔
      (Step.changes steps s).getLast? = some .fills := by
    rw [Option.getD_eq_iff]
    exact or_iff_left nofun
  rw [hcount]
  exact ⟨Effect.count_zero_le _, Effect.count_zero_eq_one_iff.trans hfills,
    ((Slot.empty h).runAll steps).law⟩

end

/-! ### A trace file in an empty directory -/

def emptyState : State where
  files := ⟨[]⟩

def samplePath : Path := .ofText "t.log"

def sampleLocation : Location := [("t.log" : Text).codes.flatMap Utf8.encode]

def sampleTrace (threshold : Int) : TraceFile := ⟨sampleLocation, 0, threshold⟩

theorem openTrace_emptyState (threshold : Int) :
    emptyState.openTrace samplePath threshold =
      (.ok (), { emptyState with
        files := ⟨[(sampleLocation, .file [])]⟩, traces := [sampleTrace threshold], threshold }) :=
  openTrace_of_opened (FileTree.ensureDirectories_run_nil rfl (by decide) _) rfl threshold

/-- The chunk of a header and one empty prototype. -/
def emptyChunk : Bytes :=
  [0x1B, 0x4C, 0x75, 0x61, 0x51, 0x00, 0x01, 0x04, 0x04, 0x04, 0x08, 0x00] ++
    List.replicate 40 0x00

theorem openCount_emptyState : emptyState.traces = [] ∧
    (Step.runAll [.openTrace samplePath 10, .decode {} emptyChunk] emptyState).openCount = 1 := by
  have hchanges : Step.changes [.openTrace samplePath 10, .decode {} emptyChunk] emptyState =
      [.fills] := by
    simp only [Step.changes, Step.effect, openTrace_emptyState]
    rfl
  refine ⟨rfl, (Slot.runAll_law rfl _).2.1.mpr ?_⟩
  rw [hchanges]
  rfl

/-- A trace file with a threshold of zero does not take every record that reaches it. -/
theorem not_all_records_taken :
    ¬ ∀ (s : State) (steps : List Step) (o : Options) (b : Bytes) (file : TraceFile)
        (content : Bytes), s.traces = [] → (Step.runAll steps s).traces = [file] →
      (Step.runAll steps s).files.node? file.location = some (.file content) →
        ((Step.decode o b).run (Step.runAll steps s)).files.node? file.location =
          some (.file (content ++
            recordLines ((records o b).filter (file.threshold ≤ ·.level.weight)))) := by
  intro hall
  let s : State :=
    { emptyState with files := ⟨[(sampleLocation, .file [])]⟩, traces := [sampleTrace 0] }
  have hrun : Step.runAll [.openTrace samplePath 0] emptyState = s :=
    congrArg Prod.snd (openTrace_emptyState 0)
  have hsingle : Single s (sampleTrace 0) [] := ⟨rfl, rfl, rfl, rfl⟩
  have hclaimed := hall emptyState [.openTrace samplePath 0] {} emptyChunk (sampleTrace 0) [] rfl
  rw [hrun, (hsingle.decode {} emptyChunk).node] at hclaimed
  have hsame := Node.file.inj (Option.some.inj (hclaimed hsingle.traces hsingle.node))
  rw [List.nil_append, List.nil_append] at hsame
  have hdiffer : recordLines ((records {} emptyChunk).filter
      ((sampleTrace 0).takes s.consoleThreshold)) ≠
      recordLines ((records {} emptyChunk).filter ((sampleTrace 0).threshold ≤ ·.level.weight)) := by
    decide +kernel
  exact hdiffer hsame

end LuaBytecode.Log
