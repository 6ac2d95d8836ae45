import LuaBytecode.Proofs.CommandLine.Input
import LuaBytecode.Proofs.CommandLine.Options
import LuaBytecode.Proofs.Export

/-!
# What a run prints and writes

A run without a trace file succeeds just if its options are resolved and the chunk is decoded under
them, its tree can be laid out, and the file it goes to can be opened. Up to that point a run only
logs, so that one that is refused leaves every file as it is.
-/

namespace LuaBytecode

/-- The directories above the file can be made, and the file then opened and emptied. -/
def FileTree.Writable (t : FileTree) (p : Path) : Prop :=
  ∃ made opened l, (ensureDirectories p.parent).run t = (.ok (), made) ∧
    (truncate p).run made = (.ok l, opened)

namespace CommandLine

open Session
open Log.State (Quiet)

/-! ### Steps of a run -/

variable {st : Log.State}

/-- The text of a chunk and its end of line. -/
def printed (s : Settings) (layout : Json.Layout) (c : Chunk) : Text :=
  Json.print layout (c.toJson s.includeRaw) ++ "\n"

def logDecoded (input : Path) (c : Chunk) : Session Unit :=
  log .commandLine .info
    ("Decoded " ++ input.toText ++ ": " ++ Text.ofNat c.root.walk.length ++ " prototype(s)")

def logWritten (path : Path) : Session Unit :=
  log .commandLine .info ("Wrote JSON tree to " ++ path.toText)

/-- What a run does with a decoded chunk. -/
def emit (host : Host) (input : Path) (s : Settings) (c : Chunk) : Session Text := do
  logDecoded input c
  let layout ← liftResult ((s.layout host.maxWidth).mapError Failure.indent)
  match s.jsonOut with
  | none => return printed s layout c
  | some path =>
    writeFile path (printed s layout c)
    logWritten path
    return Text.empty

theorem execute_eq (host : Host) (input : Path) (s : Settings) : execute host input s = (do
    let options ← resolveOptions host.nesting s
    let data ← readInput host.compiler input s
    let chunk ← decodeChunk options data
    emit host input s chunk) := rfl

section

variable {host : Host} {input : Path} {s : Settings} {o : Options} {b : Bytes} {c : Chunk}

/-- Up to the decode a run only logs. -/
theorem execute_run (h : st.traces = []) (ho : s.Resolves host.nesting st.files o)
    (hread : chunkAt host.compiler input s st.files = .ok b) :
    ∃ st', Quiet st st' ∧
      (execute host input s).run st = (decodeChunk o b >>= emit host input s).run st' := by
  obtain ⟨r, ⟨st', hrun, hquiet⟩, hr⟩ := gives_resolveOptions h host.nesting s
  rw [(hr o).mpr ho] at hrun
  have hgives := gives_readInput hquiet.trace host.compiler input s
  rw [hquiet.files, hread] at hgives
  obtain ⟨st'', hrun', hquiet'⟩ := hgives
  refine ⟨st'', hquiet.trans hquiet', ?_⟩
  rw [execute_eq, Action.run_bind_of_ok hrun, Action.run_bind_of_ok hrun']

theorem execute_gives_scan (h : st.traces = []) (ho : s.Resolves host.nesting st.files o)
    (hread : chunkAt host.compiler input s st.files = .ok b) {f : Fault}
    (hdecode : (decode o b).1 = .error f) : (execute host input s).Gives st (.error (.scan f)) := by
  obtain ⟨st', hquiet, hrun⟩ := execute_run h ho hread
  have hgives := gives_decodeChunk hquiet.trace o b
  rw [hdecode] at hgives
  obtain ⟨st'', hrun', hquiet'⟩ := hgives.bind_error (f := emit host input s)
  exact ⟨st'', hrun.trans hrun', hquiet.trans hquiet'⟩

theorem execute_run_emit (h : st.traces = []) (ho : s.Resolves host.nesting st.files o)
    (hread : chunkAt host.compiler input s st.files = .ok b) (hdecode : (decode o b).1 = .ok c) :
    ∃ st', Quiet st st' ∧ (execute host input s).run st = (emit host input s c).run st' := by
  obtain ⟨st', hquiet, hrun⟩ := execute_run h ho hread
  have hgives := gives_decodeChunk hquiet.trace o b
  rw [hdecode] at hgives
  obtain ⟨st'', hrun', hquiet'⟩ := hgives
  exact ⟨st'', hquiet.trans hquiet', hrun.trans (Action.run_bind_of_ok hrun')⟩

theorem gives_logDecoded (input : Path) (c : Chunk) (h : st.traces = []) :
    (logDecoded input c).Gives st (.ok ()) :=
  gives_log h _ _ (by decide)

theorem gives_logWritten (path : Path) (h : st.traces = []) :
    (logWritten path).Gives st (.ok ()) :=
  gives_log h _ _ (by decide)

theorem emit_gives_indent (h : st.traces = []) {f : Json.WidthFault}
    (hlayout : s.layout host.maxWidth = .error f) :
    (emit host input s c).Gives st (.error (.indent f)) := by
  refine (gives_logDecoded input c h).bind fun st' hst' => ?_
  have hgives := gives_liftResult hst'.trace ((s.layout host.maxWidth).mapError Failure.indent)
  rw [hlayout] at hgives ⊢
  exact hgives.bind_error

theorem emit_gives_printed (h : st.traces = []) {layout : Json.Layout}
    (hlayout : s.layout host.maxWidth = .ok layout) (hout : s.jsonOut = none) :
    (emit host input s c).Gives st (.ok (printed s layout c)) := by
  refine (gives_logDecoded input c h).bind fun st' hst' => ?_
  have hgives := gives_liftResult hst'.trace ((s.layout host.maxWidth).mapError Failure.indent)
  rw [hlayout] at hgives ⊢
  refine hgives.bind fun st'' hst'' => ?_
  rw [hout]
  exact gives_pure hst''.trace _

theorem run_onFiles {α : Type} (action : FileAction α) :
    (onFiles action).run st = ((action.run st.files).1.mapError .file,
      { st with files := (action.run st.files).2 }) :=
  run_liftResult _

theorem writeFile_run {path : Path} {t : Text} {bytes : Bytes}
    (hbytes : Utf8.encode? t = some bytes) (hwritable : st.files.Writable path) :
    ∃ files : FileTree, (writeFile path t).run st = (.ok (), { st with files }) ∧
      files.read path = .ok bytes := by
  obtain ⟨made, opened, l, hmade, hopened⟩ := hwritable
  have hdirectories : (onFiles (FileTree.ensureDirectories path.parent)).run st =
      (.ok (), { st with files := made }) := by
    rw [run_onFiles, hmade]
    rfl
  have htruncate : (onFiles (FileTree.truncate path)).run { st with files := made } =
      (.ok l, { st with files := opened }) := by
    rw [run_onFiles, hopened]
    rfl
  refine ⟨opened.writeAt l 0 bytes, ?_, FileTree.read_writeAt_of_truncate hopened bytes⟩
  unfold writeFile
  rw [Action.run_bind_of_ok hdirectories, Action.run_bind_of_ok htruncate, hbytes]
  rfl

theorem emit_run_written (host : Host) (input : Path) (h : st.traces = []) {layout : Json.Layout}
    (hlayout : s.layout host.maxWidth = .ok layout) {path : Path} (hout : s.jsonOut = some path)
    (hwritable : st.files.Writable path) {bytes : Bytes}
    (hbytes : Utf8.encode? (printed s layout c) = some bytes) :
    ∃ st', (emit host input s c).run st = (.ok Text.empty, st') ∧
      st'.files.read path = .ok bytes := by
  obtain ⟨st₁, hrun₁, hquiet₁⟩ := gives_logDecoded input c h
  have hgives := gives_liftResult hquiet₁.trace ((s.layout host.maxWidth).mapError Failure.indent)
  rw [hlayout] at hgives
  obtain ⟨st₂, hrun₂, hquiet₂⟩ := hgives
  have hquiet := hquiet₁.trans hquiet₂
  rw [← hquiet.files] at hwritable
  obtain ⟨files, hrun₃, hread⟩ := writeFile_run hbytes hwritable
  have htrace : Log.State.traces { st₂ with files } = [] := hquiet.trace
  obtain ⟨st₄, hrun₄, hquiet₄⟩ := gives_logWritten path htrace
  refine ⟨st₄, ?_, ?_⟩
  · unfold emit
    rw [Action.run_bind_of_ok hrun₁, hlayout, Action.run_bind_of_ok hrun₂, hout]
    simp only
    rw [Action.run_bind_of_ok hrun₃, Action.run_bind_of_ok hrun₄]
    rfl
  · rw [hquiet₄.files]
    exact hread

theorem writable_of_writeFile {path : Path} {t : Text} {st' : Log.State}
    (h : (writeFile path t).run st = (.ok (), st')) : st.files.Writable path := by
  unfold writeFile at h
  obtain ⟨_, st₁, hdirectories, h⟩ := Action.run_bind_eq_ok_iff.mp h
  obtain ⟨l, st₂, htruncate, _⟩ := Action.run_bind_eq_ok_iff.mp h
  rw [run_onFiles, Prod.mk.injEq, Action.mapError_eq_ok_iff] at hdirectories htruncate
  obtain ⟨hdirectories, rfl⟩ := hdirectories
  obtain ⟨htruncate, rfl⟩ := htruncate
  exact ⟨_, _, l, Prod.ext hdirectories rfl, Prod.ext htruncate rfl⟩

theorem of_emit_run (h : st.traces = []) {out : Text} {st' : Log.State}
    (hrun : (emit host input s c).run st = (.ok out, st')) :
    ∃ layout, s.layout host.maxWidth = .ok layout ∧
      ∀ path, s.jsonOut = some path → st.files.Writable path := by
  unfold emit at hrun
  obtain ⟨_, st₁, hlog, hrun⟩ := Action.run_bind_eq_ok_iff.mp hrun
  obtain ⟨layout, st₂, hlayout, hrun⟩ := Action.run_bind_eq_ok_iff.mp hrun
  rw [run_liftResult, Prod.mk.injEq, Action.mapError_eq_ok_iff] at hlayout
  obtain ⟨hlayout, rfl⟩ := hlayout
  refine ⟨layout, hlayout, fun path hout => ?_⟩
  obtain ⟨_, hrun₁, hquiet⟩ := gives_logDecoded input c h
  cases hrun₁.symm.trans hlog
  rw [hout] at hrun
  obtain ⟨_, st₃, hwrite, _⟩ := Action.run_bind_eq_ok_iff.mp hrun
  rw [← hquiet.files]
  exact writable_of_writeFile hwrite

end

/-! ### How a run ends -/

namespace Outcome

/-- Success: the text is all that is printed, and no file has changed. -/
structure Prints (r : Outcome) (files : FileTree) (text : Text) : Prop where
  ending : r.ending = .exit 0
  output : r.output = text
  files : r.state.files = files

/-- Success: nothing is printed, and the file holds the text. -/
structure Writes (r : Outcome) (path : Path) (text : Text) : Prop where
  ending : r.ending = .exit 0
  output : r.output = Text.empty
  content : ∃ bytes, Utf8.encode? text = some bytes ∧ r.state.files.read path = .ok bytes

/-- A reported failure: the message is the one error logged, nothing is printed, and no file has
changed. -/
structure Refuses (r : Outcome) (files : FileTree) (message : Text) : Prop where
  ending : r.ending = .exit 1
  output : r.output = Text.empty
  files : r.state.files = files
  console : ∃ earlier : List Log.Record, (∀ record ∈ earlier, record.level ≠ .error) ∧
    r.state.console = Log.consoleText (earlier ++ [⟨.commandLine, .error, message⟩])

/-- A failure that nothing reports: nothing is printed, and no file has changed. -/
structure BreaksOff (r : Outcome) (files : FileTree) (f : Failure) : Prop where
  ending : r.ending = .brokenOff f
  output : r.output = Text.empty
  files : r.state.files = files

end Outcome

def initialState (s : Settings) (files : FileTree) : Log.State :=
  { files, consoleThreshold := consoleThreshold s }

section

variable {host : Host} {input : Path} {s : Settings} {files : FileTree}

theorem run_eq (htrace : s.trace = none) :
    run host input s files = finish input ((execute host input s).run (initialState s files)) := by
  rw [run, htrace]
  rfl

theorem exit_zero_iff {r : Except Failure Text × Log.State} :
    (finish input r).ending = .exit 0 ↔ ∃ out, r.1 = .ok out := by
  obtain ⟨r, st⟩ := r
  cases r with
  | ok out => exact ⟨fun _ => ⟨out, rfl⟩, fun _ => rfl⟩
  | error f =>
    refine ⟨fun h => ?_, nofun⟩
    rw [finish] at h
    split at h
    · cases h
    · cases h

theorem prints_of_gives {text : Text} (htrace : s.trace = none)
    (h : (execute host input s).Gives (initialState s files) (.ok text)) :
    (run host input s files).Prints files text := by
  obtain ⟨st', hrun, hquiet⟩ := h
  rw [run_eq htrace, hrun]
  exact ⟨rfl, rfl, hquiet.files⟩

theorem breaksOff_of_gives {f : Failure} (htrace : s.trace = none)
    (h : (execute host input s).Gives (initialState s files) (.error f))
    (hreport : f.report? input = none) :
    (run host input s files).BreaksOff files f := by
  obtain ⟨st', hrun, hquiet⟩ := h
  rw [run_eq htrace, hrun, finish, hreport]
  exact ⟨rfl, rfl, hquiet.files⟩

/-- The console shows errors whatever its level. -/
theorem log_error_of_quiet {st' : Log.State} (h : Quiet (initialState s files) st')
    (message : Text) : st'.log ⟨.commandLine, .error, message⟩ =
      { st' with console := st'.console ++
        (Log.Record.mk .commandLine .error message).consoleLine } := by
  have hthreshold : st'.effectiveThreshold = consoleThreshold s := by
    rw [Log.State.effectiveThreshold, h.threshold, h.consoleThreshold]
    rfl
  have hshown : ¬Log.Level.error.weight < consoleThreshold s := by
    unfold consoleThreshold
    split <;> decide
  rw [Log.State.log_of_untraced h.trace, hthreshold, if_neg hshown]

theorem refuses_of_gives {f : Failure} {message : Text} (htrace : s.trace = none)
    (h : (execute host input s).Gives (initialState s files) (.error f))
    (hreport : f.report? input = some message) :
    (run host input s files).Refuses files message := by
  obtain ⟨st', hrun, hquiet⟩ := h
  obtain ⟨earlier, hearlier, hconsole⟩ := hquiet.console
  rw [run_eq htrace, hrun, finish, hreport]
  simp only [log_error_of_quiet hquiet]
  refine ⟨rfl, rfl, hquiet.files, earlier, hearlier, ?_⟩
  change st'.console ++ _ = _
  rw [hconsole, Log.consoleText_append, Log.consoleText_singleton]
  rfl

theorem layout_eq_ok_iff {maxWidth : Int} {layout : Json.Layout} :
    s.layout maxWidth = .ok layout ↔
      ∃ width, s.indent = .value width ∧ Json.Layout.Fits maxWidth width ∧
        layout = .indented width := by
  unfold Settings.layout
  cases s.indent with
  | nothing =>
    refine ⟨nofun, ?_⟩
    rintro ⟨width, hwidth, _⟩
    cases hwidth
  | value width =>
    simp only [Json.Layout.ofWidth_eq_ok_iff, Given.value.injEq, exists_eq_left']

theorem layout_of_lt {width : Int} (hindent : s.indent = .value width)
    (hwidth : width < -0x8000000000000000) (maxWidth : Int) :
    s.layout maxWidth = .error .outOfRange := by
  rw [Settings.layout, hindent]
  exact if_pos (.inl hwidth)

theorem isAscii_printed (s : Settings) (width : Int) (c : Chunk) :
    (printed s (.indented width) c).isAscii = true := by
  rw [printed, Text.isAscii_append, Json.isAscii_print (Json.Layout.isAscii_indented width)]
  decide

variable {o : Options} {b : Bytes} {c : Chunk}

theorem gives_of_emit (ho : s.Resolves host.nesting files o)
    (hread : chunkAt host.compiler input s files = .ok b) (hdecode : (decode o b).1 = .ok c)
    {r : Except Failure Text}
    (h : ∀ st : Log.State, st.traces = [] → (emit host input s c).Gives st r) :
    (execute host input s).Gives (initialState s files) r := by
  have htrace : (initialState s files).traces = [] := rfl
  obtain ⟨st', hquiet, hrun⟩ := execute_run_emit htrace ho hread hdecode
  obtain ⟨st'', hrun', hquiet'⟩ := h st' hquiet.trace
  exact ⟨st'', hrun.trans hrun', hquiet.trans hquiet'⟩

theorem writes_of_writable (htrace : s.trace = none) (ho : s.Resolves host.nesting files o)
    (hread : chunkAt host.compiler input s files = .ok b) (hdecode : (decode o b).1 = .ok c)
    {width : Int} (hlayout : s.layout host.maxWidth = .ok (.indented width)) {path : Path}
    (hout : s.jsonOut = some path) (hwritable : files.Writable path) :
    (run host input s files).Writes path (printed s (.indented width) c) := by
  have hinitial : (initialState s files).traces = [] := rfl
  obtain ⟨st', hquiet, hrun⟩ := execute_run_emit hinitial ho hread hdecode
  have hbytes := Text.encode?_of_isAscii (isAscii_printed s width c)
  have hfiles : st'.files = files := hquiet.files
  rw [← hfiles] at hwritable
  obtain ⟨st'', hrun', hcontent⟩ :=
    emit_run_written host input hquiet.trace hlayout hout hwritable hbytes
  rw [run_eq htrace, hrun, hrun']
  exact ⟨rfl, rfl, _, hbytes, hcontent⟩

theorem of_exit_zero (htrace : s.trace = none)
    (h : (run host input s files).ending = .exit 0) :
    ∃ o b c layout, s.Resolves host.nesting files o ∧
      chunkAt host.compiler input s files = .ok b ∧ (decode o b).1 = .ok c ∧
        s.layout host.maxWidth = .ok layout ∧
          ∀ path, s.jsonOut = some path → files.Writable path := by
  have hinitial : (initialState s files).traces = [] := rfl
  rw [run_eq htrace, exit_zero_iff] at h
  obtain ⟨out, hout⟩ := h
  have hrun : (execute host input s).run (initialState s files) =
      (.ok out, ((execute host input s).run (initialState s files)).2) := Prod.ext hout rfl
  rw [execute_eq] at hrun
  obtain ⟨o, st₁, hoptions, hrun⟩ := Action.run_bind_eq_ok_iff.mp hrun
  obtain ⟨b, st₂, hinput, hrun⟩ := Action.run_bind_eq_ok_iff.mp hrun
  obtain ⟨c, st₃, hdecode, hrun⟩ := Action.run_bind_eq_ok_iff.mp hrun
  obtain ⟨r, ⟨_, hrun₁, hquiet₁⟩, hr⟩ := gives_resolveOptions hinitial host.nesting s
  cases hrun₁.symm.trans hoptions
  obtain ⟨_, hrun₂, hquiet₂⟩ := gives_readInput hquiet₁.trace host.compiler input s
  obtain ⟨hread, rfl⟩ := Prod.mk.inj (hrun₂.symm.trans hinput)
  obtain ⟨_, hrun₃, hquiet₃⟩ := gives_decodeChunk hquiet₂.trace o b
  obtain ⟨hchunk, rfl⟩ := Prod.mk.inj (hrun₃.symm.trans hdecode)
  obtain ⟨layout, hlayout, hwritable⟩ := of_emit_run hquiet₃.trace hrun
  have hfiles₁ : _ = files := hquiet₁.files
  have hfiles₃ : _ = files := ((hquiet₁.trans hquiet₂).trans hquiet₃).files
  rw [hfiles₁] at hread
  rw [hfiles₃] at hwritable
  exact ⟨o, b, c, layout, (hr o).mp rfl, hread, Action.mapError_eq_ok_iff.mp hchunk, hlayout,
    hwritable⟩

/-- A run prints or writes the tree of what it decodes under its options, all of it, or nothing: if
the chunk is refused that is reported, and if its tree cannot be laid out the run is broken off. The
run succeeds in no other case. -/
theorem run_all_or_nothing (hsource : s.source = false) (htrace : s.trace = none) :
    (∀ o b, s.Resolves host.nesting files o → files.read input = .ok b →
      (∀ c width, (decode o b).1 = .ok c → s.indent = .value width →
        Json.Layout.Fits host.maxWidth width →
          (c.toJson s.includeRaw).Finite ∧ (printed s (.indented width) c).isAscii = true ∧
          (s.jsonOut = none →
            (run host input s files).Prints files (printed s (.indented width) c)) ∧
          ∀ path, s.jsonOut = some path → files.Writable path →
            (run host input s files).Writes path (printed s (.indented width) c)) ∧
      (∀ c, (decode o b).1 = .ok c →
        (∀ width, s.indent = .value width → ¬Json.Layout.Fits host.maxWidth width) →
          ∃ f, (run host input s files).BreaksOff files (.indent f)) ∧
      ∀ e, (decode o b).1 = .error (.decode e) →
        (run host input s files).Refuses files
          ("Cannot decode " ++ input.toText ++ ": " ++ e.message)) ∧
    ((run host input s files).ending = .exit 0 →
      ∃ o b c width, s.Resolves host.nesting files o ∧ files.read input = .ok b ∧
        (decode o b).1 = .ok c ∧ s.indent = .value width ∧
          Json.Layout.Fits host.maxWidth width ∧
            ∀ path, s.jsonOut = some path → files.Writable path) := by
  have hchunk_iff : ∀ {b}, chunkAt host.compiler input s files = .ok b ↔ files.read input = .ok b :=
    chunkAt_eq_ok_iff hsource
  refine ⟨fun o b ho hread => ⟨fun c width hdecode hindent hfits => ?_,
    fun c hdecode hindent => ?_, fun e hdecode => ?_⟩, fun hzero => ?_⟩
  · have hlayout : s.layout host.maxWidth = .ok (.indented width) :=
      layout_eq_ok_iff.mpr ⟨width, hindent, hfits, rfl⟩
    refine ⟨finite_toJson hdecode _, isAscii_printed s width c, fun hout => ?_,
      fun path hout hwritable => ?_⟩
    · exact prints_of_gives htrace (gives_of_emit ho (hchunk_iff.mpr hread) hdecode fun st hst =>
        emit_gives_printed hst hlayout hout)
    · exact writes_of_writable htrace ho (hchunk_iff.mpr hread) hdecode hlayout hout hwritable
  · cases hlayout : s.layout host.maxWidth with
    | ok layout =>
      obtain ⟨width, hwidth, hfits, _⟩ := layout_eq_ok_iff.mp hlayout
      exact absurd hfits (hindent width hwidth)
    | error f =>
      have hgives := gives_of_emit ho (hchunk_iff.mpr hread) hdecode fun st hst =>
        emit_gives_indent hst hlayout
      exact ⟨f, breaksOff_of_gives htrace hgives rfl⟩
  · have hchunk : chunkAt host.compiler input s (initialState s files).files = .ok b :=
      hchunk_iff.mpr hread
    exact refuses_of_gives htrace (execute_gives_scan rfl ho hchunk hdecode) rfl
  · obtain ⟨o, b, c, layout, ho, hchunk, hdecode, hlayout, hwritable⟩ := of_exit_zero htrace hzero
    obtain ⟨width, hindent, hfits, _⟩ := layout_eq_ok_iff.mp hlayout
    exact ⟨o, b, c, width, ho, hchunk_iff.mp hchunk, hdecode, hindent, hfits, hwritable⟩

end

/-! ### Runs on a sample -/

def sampleInput : Path := .ofText "a.luac"

def sampleConfig : Path := .ofText "o.json"

/-- A config file that says `max_depth` is one, and nothing else. -/
def depthMember : Bytes :=
  [0x7B, 0x22, 0x6D, 0x61, 0x78, 0x5F, 0x64, 0x65, 0x70, 0x74, 0x68, 0x22, 0x3A, 0x31, 0x7D]

def sampleFiles : FileTree :=
  ⟨[([("a.luac" : Text).codes.flatMap Utf8.encode], .file (namedChunk [0x3D, 0x74])),
    ([("o.json" : Text).codes.flatMap Utf8.encode], .file depthMember)]⟩

def sampleChunk : Chunk := ⟨⟨.four⟩, malformedTree "=t", namedChunk [0x3D, 0x74]⟩

def sampleHost : Host := ⟨none, 1, 2⟩

def sampleSettings : Settings := { config := some sampleConfig, verboseInstructions := true }

theorem read_sampleFiles : sampleFiles.read sampleInput = .ok (namedChunk [0x3D, 0x74]) := by
  decide +kernel

theorem resolves_sample : sampleSettings.Resolves sampleHost.nesting sampleFiles
    { verboseInstructions := true, maxDepth := 1 } := by
  have hread : sampleFiles.read sampleConfig = .ok depthMember := by decide +kernel
  have hparse : ∃ text, textOf depthMember = .ok text ∧
      Json.parse sampleHost.nesting text = .ok (.object [("max_depth", .int 1)]) := ⟨_, rfl, rfl⟩
  have hnames : ∀ member ∈ [(("max_depth" : Text), Json.int 1)],
      Options.isName member.1 = true := by
    rw [List.forall_mem_singleton]
    decide
  have hvalues : ∃ base : Options, ∀ name, base.value name =
      (Json.member? name.text [("max_depth", .int 1)]).getD ((default : Options).value name) := by
    refine ⟨{ maxDepth := 1 }, fun name => ?_⟩
    cases name <;> rfl
  obtain ⟨text, htext, hparse⟩ := hparse
  refine ⟨_, .present rfl hread htext hparse hnames hvalues, fun name => ?_⟩
  cases name <;> rfl

/-- A flag that the config file says nothing of leaves the value of the file in place. -/
theorem run_sample : (run sampleHost sampleInput sampleSettings sampleFiles).Prints sampleFiles
    (printed sampleSettings (.indented 2) sampleChunk) := by
  have hdecode : (decode { verboseInstructions := true, maxDepth := 1 }
      (namedChunk [0x3D, 0x74])).1 = .ok sampleChunk := by decide +kernel
  exact (((run_all_or_nothing rfl rfl).1 _ _ resolves_sample read_sampleFiles).1 sampleChunk 2
    hdecode rfl (by decide)).2.2.1 rfl

/-- A width that is no machine integer breaks a run off, also where it is below zero. -/
theorem run_not_always_exits_zero :
    ¬ ∃ host : Host, ∀ (input : Path) (s : Settings) (files : FileTree) (o : Options) (b : Bytes)
        (c : Chunk), s.source = false → s.trace = none → s.Resolves host.nesting files o →
      files.read input = .ok b → (decode o b).1 = .ok c →
        (∀ path, s.jsonOut = some path → files.Writable path) →
          (run host input s files).ending = .exit 0 := by
  rintro ⟨host, hzero⟩
  let s : Settings := { indent := .value (-0x8000000000000001) }
  have hlayout : s.layout host.maxWidth = .error .outOfRange := layout_of_lt rfl (by decide) _
  have ho : s.Resolves host.nesting sampleFiles {} := by
    refine ⟨[], .absent rfl, fun name => ?_⟩
    cases name <;> rfl
  have hdecode : (decode {} (namedChunk [0x3D, 0x74])).1 = .ok sampleChunk := by decide +kernel
  have hending := hzero sampleInput s sampleFiles {} _ sampleChunk rfl rfl ho read_sampleFiles
    hdecode nofun
  have hchunk : chunkAt host.compiler sampleInput s sampleFiles = .ok (namedChunk [0x3D, 0x74]) :=
    (chunkAt_eq_ok_iff rfl).mpr read_sampleFiles
  have hbroken := breaksOff_of_gives rfl (gives_of_emit ho hchunk hdecode
    fun st hst => emit_gives_indent hst hlayout) rfl
  cases hending.symm.trans hbroken.ending

end CommandLine

end LuaBytecode
