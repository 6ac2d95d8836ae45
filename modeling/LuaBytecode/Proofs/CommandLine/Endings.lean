import LuaBytecode.Proofs.CommandLine.Run
import LuaBytecode.Proofs.Configuration
import LuaBytecode.Proofs.Decoder.PolicyFaults
import LuaBytecode.Proofs.Log.Slot

/-!
# How runs end

A run ends with status zero or one, or it is broken off by a failure that nothing reports. Each step
of a run has a few such failures, and a run is broken off by the first of them that it meets: they
are listed here, each with the state in which it is met. The list is the same for every host.
-/

namespace LuaBytecode

open Session

/-! ### Failures of the steps -/

theorem Failure.report?_ne_none {f : Failure} (h : f.isConfiguration = true) (input : Path) :
    f.report? input ≠ none := by
  cases f with
  | option f =>
    cases f with
    | policy | unknownOverride | reservedOverride => cases h
    | _ => exact nofun
  | configUnreadable | configMalformed | configNotObject => exact nofun
  | _ => cases h

theorem ConfigBreak.report? {t : FileTree} {nesting : Nat} {p : Path} {f : Failure}
    (h : ConfigBreak t nesting p f) (input : Path) : f.report? input = none := by
  cases h <;> rfl

namespace FileTree

variable {t : FileTree} {p : Path} {g : PathFault}

theorem EndsAs.ne_path {r : Except FileFault Unit × FileTree} {w : Bool × FileTree}
    (h : EndsAs r w) : r.1 ≠ .error (.path g) := by
  cases h <;> exact nofun

theorem ensureDirectories_eq_path_iff :
    ((ensureDirectories p).run t).1 = .error (.path g) ↔ p.encode = .error g := by
  rcases ensureDirectories_cases p t with
    ⟨names, hencode, _, hends⟩ | ⟨names, e, hencode, _, hrun⟩ | ⟨g', hencode, hrun⟩
  · rw [hencode]
    exact ⟨fun h => absurd h hends.ne_path, nofun⟩
  · rw [hrun, hencode]
    exact ⟨nofun, nofun⟩
  · rw [hrun, hencode]
    simp

theorem truncate_eq_path_iff :
    ((truncate p).run t).1 = .error (.path g) ↔ p.encode = .error g := by
  rw [← t.locate_eq_path_iff]
  unfold truncate
  rw [Action.run_get_bind, Action.run_bind_fst_eq_error_iff, Action.run_liftM]
  refine or_iff_left ?_
  rintro ⟨l, t', _, h⟩
  split at h <;> cases h

end FileTree

namespace CommandLine

/-- What breaks a run off once its trace file is open, with the failure that comes of it. -/
inductive Break (host : Host) (input : Path) (s : Settings) (st : Log.State) : Failure → Prop
  | config {p : Path} {f : Failure} (hconfig : s.config = some p)
    (hbreak : ConfigBreak st.files host.nesting p f) : Break host input s st f
  /-- The other options that come out on top are in order, but the policy cannot be looked up. -/
  | policy {base : Options} {st₁ : Log.State} {name : Text} {g : PolicyFault}
    (hbase : (baseOptions host.nesting s).run st = (.ok base, st₁))
    (hothers : ∃ o : Options, ∀ name, name ≠ .stringErrors →
      o.value name = (s.given? name).getD (base.value name))
    (hname : s.stringErrors = some (.value name)) (hfault : Policy.nameFault? name = some g) :
    Break host input s st (.option (.policy g))
  | input {o : Options} {st₁ : Log.State} {f : Failure}
    (ho : (resolveOptions host.nesting s).run st = (.ok o, st₁))
    (hbreak : InputBreak host.compiler input s st₁.files f) : Break host input s st f
  | writing {o : Options} {b : Bytes} {st₁ st₂ : Log.State}
    (ho : (resolveOptions host.nesting s).run st = (.ok o, st₁))
    (hread : (readInput host.compiler input s).run st₁ = (.ok b, st₂))
    (hfails : WritingPolicyFails o b) : Break host input s st (.scan (.policy .writingOnly))
  | layout {o : Options} {b : Bytes} {c : Chunk} {st₁ st₂ st₃ : Log.State} {f : Json.WidthFault}
    (ho : (resolveOptions host.nesting s).run st = (.ok o, st₁))
    (hread : (readInput host.compiler input s).run st₁ = (.ok b, st₂))
    (hdecode : (decodeChunk o b).run st₂ = (.ok c, st₃))
    (hlayout : s.layout host.maxWidth = .error f) : Break host input s st (.indent f)
  | directory {o : Options} {b : Bytes} {c : Chunk} {st₁ st₂ st₃ : Log.State}
    {layout : Json.Layout} {p : Path} {g : PathFault}
    (ho : (resolveOptions host.nesting s).run st = (.ok o, st₁))
    (hread : (readInput host.compiler input s).run st₁ = (.ok b, st₂))
    (hdecode : (decodeChunk o b).run st₂ = (.ok c, st₃))
    (hlayout : s.layout host.maxWidth = .ok layout) (hout : s.jsonOut = some p)
    (hencode : p.parent.encode = .error g) : Break host input s st (.file (.path g))
  | output {o : Options} {b : Bytes} {c : Chunk} {st₁ st₂ st₃ st₄ st₅ : Log.State}
    {layout : Json.Layout} {p : Path} {g : PathFault}
    (ho : (resolveOptions host.nesting s).run st = (.ok o, st₁))
    (hread : (readInput host.compiler input s).run st₁ = (.ok b, st₂))
    (hdecode : (decodeChunk o b).run st₂ = (.ok c, st₃))
    (hlayout : s.layout host.maxWidth = .ok layout) (hout : s.jsonOut = some p)
    (hlog : (logDecoded input c).run st₃ = (.ok (), st₄))
    (hmade : (onFiles (FileTree.ensureDirectories p.parent)).run st₄ = (.ok (), st₅))
    (hencode : p.encode = .error g) : Break host input s st (.file (.path g))

/-- What breaks a run off: that its trace file cannot be opened, or something later. -/
def Breaks (host : Host) (input : Path) (s : Settings) (files : FileTree) (f : Failure) : Prop :=
  match s.trace with
  | none => Break host input s (initialState s files) f
  | some p =>
    match (initialState s files).openTrace p Log.Level.debug.weight with
    | (.error e, _) => f = .file e
    | (.ok (), st) => Break host input s st f

section

variable {host : Host} {input : Path} {s : Settings} {st st' : Log.State} {f : Failure}

/-! ### The options -/

theorem report?_of_withOverrides (input : Path) {base : Options} {fault : OptionFault}
    (h : base.withOverrides s.overrides = .error fault) :
    (Failure.option fault).report? input = none ↔ ∃ g, fault = .policy g := by
  rw [Settings.withOverrides_eq_check] at h
  constructor
  · intro hreport
    rcases Options.Draft.isConfiguration_of_check h with hconfiguration | hpolicy
    · have hknown : (Failure.option fault).isConfiguration = true := hconfiguration
      exact absurd hreport (Failure.report?_ne_none hknown input)
    · exact hpolicy
  · rintro ⟨g, rfl⟩
    rfl

theorem withOverrides_eq_policy_iff {base : Options} {g : PolicyFault} :
    base.withOverrides s.overrides = .error (.policy g) ↔
      (∃ o : Options, ∀ name, name ≠ .stringErrors →
        o.value name = (s.given? name).getD (base.value name)) ∧
      ∃ name, s.stringErrors = some (.value name) ∧ Policy.nameFault? name = some g := by
  rw [Settings.withOverrides_eq_check, Options.Draft.layered_eq_policy_iff (s.value_applied base)]
  refine and_congr_right fun _ => exists_congr fun name => and_congr_left fun _ => ?_
  cases hgiven : s.stringErrors with
  | none => simp [Settings.given?, hgiven]
  | some given => cases given <;> simp [Settings.given?, hgiven, Given.toJson]

theorem baseOptions_break_iff (input : Path) :
    (((baseOptions host.nesting s).run st).1 = .error f ∧ f.report? input = none) ↔
      ∃ p, s.config = some p ∧ ConfigBreak st.files host.nesting p f := by
  unfold baseOptions
  cases hconfig : s.config with
  | none =>
    refine ⟨?_, nofun⟩
    rintro ⟨h, _⟩
    cases h
  | some p =>
    simp only [run_loadOptionsWithin_fst, Option.some.injEq, exists_eq_left']
    constructor
    · rintro ⟨herror, hreport⟩
      refine configBreak_of_optionsAt herror (Bool.eq_false_iff.mpr fun hconfiguration => ?_)
      exact Failure.report?_ne_none hconfiguration input hreport
    · exact fun hbreak => ⟨hbreak.optionsAt.1, hbreak.report? input⟩

theorem resolveOptions_break_iff (input : Path) :
    (((resolveOptions host.nesting s).run st).1 = .error f ∧ f.report? input = none) ↔
      (∃ p, s.config = some p ∧ ConfigBreak st.files host.nesting p f) ∨
      ∃ base st₁ g, (baseOptions host.nesting s).run st = (.ok base, st₁) ∧
        base.withOverrides s.overrides = .error (.policy g) ∧ f = .option (.policy g) := by
  rw [resolveOptions_eq, Action.run_bind_fst_eq_error_iff, or_and_right, baseOptions_break_iff]
  simp only [run_liftResult, Action.mapError_eq_error_iff]
  refine or_congr_right ⟨?_, ?_⟩
  · rintro ⟨⟨base, st₁, hbase, fault, hfault, rfl⟩, hreport⟩
    obtain ⟨g, rfl⟩ := (report?_of_withOverrides input hfault).mp hreport
    exact ⟨base, st₁, g, hbase, hfault, rfl⟩
  · rintro ⟨base, st₁, g, hbase, hfault, rfl⟩
    exact ⟨⟨base, st₁, hbase, _, hfault, rfl⟩, rfl⟩

/-! ### The input -/

theorem readInput_break_iff {compiler : Option Compiler} :
    (((readInput compiler input s).run st).1 = .error f ∧ f.report? input = none) ↔
      InputBreak compiler input s st.files f := by
  rw [run_readInput_fst, chunkAt_break_iff]

/-! ### The chunk and its tree -/

theorem decodeChunk_break_iff (input : Path) {o : Options} {b : Bytes} :
    (((decodeChunk o b).run st).1 = .error f ∧ f.report? input = none) ↔
      f = .scan (.policy .writingOnly) ∧ WritingPolicyFails o b := by
  rw [run_decodeChunk, Action.mapError_eq_error_iff]
  constructor
  · rintro ⟨⟨fault, hfault, rfl⟩, hreport⟩
    rcases decodeError_or_eq_writingOnly hfault with ⟨e, rfl⟩ | rfl
    · cases hreport
    · exact ⟨rfl, (decode_eq_writingOnly_iff o b).mp hfault⟩
  · rintro ⟨rfl, hfails⟩
    exact ⟨⟨_, (decode_eq_writingOnly_iff o b).mpr hfails, rfl⟩, rfl⟩

theorem onFiles_break_iff (input : Path) {α : Type} {action : FileAction α} :
    (((onFiles action).run st).1 = .error f ∧ f.report? input = none) ↔
      ∃ g, (action.run st.files).1 = .error (.path g) ∧ f = .file (.path g) := by
  rw [run_onFiles, file_break_iff]

theorem writeFile_break_iff (input : Path) {p : Path} {t : Text} :
    (((writeFile p t).run st).1 = .error f ∧ f.report? input = none) ↔
      (∃ g, p.parent.encode = .error g ∧ f = .file (.path g)) ∨
      ∃ st' g, (onFiles (FileTree.ensureDirectories p.parent)).run st = (.ok (), st') ∧
        p.encode = .error g ∧ f = .file (.path g) := by
  unfold writeFile
  rw [Action.run_bind_fst_eq_error_iff, or_and_right, onFiles_break_iff]
  simp only [FileTree.ensureDirectories_eq_path_iff]
  refine or_congr_right ⟨?_, ?_⟩
  · rintro ⟨⟨_, st', hmade, h⟩, hreport⟩
    rw [Action.run_bind_fst_eq_error_iff] at h
    rcases h with h | ⟨l, st'', _, h⟩
    · obtain ⟨g, hencode, rfl⟩ := (onFiles_break_iff input).mp ⟨h, hreport⟩
      exact ⟨st', g, hmade, FileTree.truncate_eq_path_iff.mp hencode, rfl⟩
    · cases h
  · rintro ⟨st', g, hmade, hencode, rfl⟩
    have htruncate : ((onFiles (FileTree.truncate p)).run st').1 = .error (.file (.path g)) :=
      And.left ((onFiles_break_iff input).mpr
        ⟨g, FileTree.truncate_eq_path_iff.mpr hencode, rfl⟩)
    exact ⟨⟨(), st', hmade, Action.run_bind_fst_eq_error_iff.mpr (.inl htruncate)⟩, rfl⟩

theorem emit_break_iff {c : Chunk} :
    (((emit host input s c).run st).1 = .error f ∧ f.report? input = none) ↔
      (∃ g, s.layout host.maxWidth = .error g ∧ f = .indent g) ∨
      ∃ layout p st', s.layout host.maxWidth = .ok layout ∧ s.jsonOut = some p ∧
        (logDecoded input c).run st = (.ok (), st') ∧
        ((writeFile p (printed s layout c)).run st').1 = .error f ∧ f.report? input = none := by
  unfold emit
  have hlogged : (logDecoded input c).run st = (.ok (), ((logDecoded input c).run st).2) := rfl
  rw [Action.run_bind_of_ok hlogged, Action.run_bind_fst_eq_error_iff, run_liftResult,
    Action.mapError_eq_error_iff]
  constructor
  · rintro ⟨⟨g, hlayout, rfl⟩ | ⟨layout, st', hlayout, h⟩, hreport⟩
    · exact .inl ⟨g, hlayout, rfl⟩
    · rw [Prod.mk.injEq, Action.mapError_eq_ok_iff] at hlayout
      obtain ⟨hlayout, rfl⟩ := hlayout
      cases hout : s.jsonOut with
      | none =>
        rw [hout] at h
        cases h
      | some p =>
        rw [hout] at h
        rcases Action.run_bind_fst_eq_error_iff.mp h with h | ⟨_, st'', _, h⟩
        · exact .inr ⟨layout, p, _, hlayout, rfl, hlogged, h, hreport⟩
        · cases h
  · rintro (⟨g, hlayout, rfl⟩ | ⟨layout, p, st', hlayout, hout, hlog, h, hreport⟩)
    · exact ⟨.inl ⟨g, hlayout, rfl⟩, rfl⟩
    · refine ⟨.inr ⟨layout, st', ?_, ?_⟩, hreport⟩
      · rw [hlayout, hlog]
        rfl
      · rw [hout]
        exact Action.run_bind_fst_eq_error_iff.mpr (.inl h)

/-! ### Runs -/

theorem execute_eq_error_iff : ((execute host input s).run st).1 = .error f ↔
    ((resolveOptions host.nesting s).run st).1 = .error f ∨
    ∃ o st₁, (resolveOptions host.nesting s).run st = (.ok o, st₁) ∧
      (((readInput host.compiler input s).run st₁).1 = .error f ∨
      ∃ b st₂, (readInput host.compiler input s).run st₁ = (.ok b, st₂) ∧
        (((decodeChunk o b).run st₂).1 = .error f ∨
        ∃ c st₃, (decodeChunk o b).run st₂ = (.ok c, st₃) ∧
          ((emit host input s c).run st₃).1 = .error f)) := by
  rw [execute_eq]
  simp only [Action.run_bind_fst_eq_error_iff]

theorem break_of_execute (h : ((execute host input s).run st).1 = .error f)
    (hreport : f.report? input = none) : Break host input s st f := by
  rcases execute_eq_error_iff.mp h with
    h | ⟨o, st₁, ho, h | ⟨b, st₂, hread, h | ⟨c, st₃, hdecode, h⟩⟩⟩
  · rcases (resolveOptions_break_iff input).mp ⟨h, hreport⟩ with
      ⟨p, hconfig, hbreak⟩ | ⟨base, st₁, g, hbase, hfault, rfl⟩
    · exact .config hconfig hbreak
    · obtain ⟨hothers, name, hname, hfault⟩ := withOverrides_eq_policy_iff.mp hfault
      exact .policy hbase hothers hname hfault
  · exact .input ho (readInput_break_iff.mp ⟨h, hreport⟩)
  · obtain ⟨rfl, hfails⟩ := (decodeChunk_break_iff input).mp ⟨h, hreport⟩
    exact .writing ho hread hfails
  · rcases emit_break_iff.mp ⟨h, hreport⟩ with
      ⟨g, hlayout, rfl⟩ | ⟨layout, p, st₄, hlayout, hout, hlog, hwrite⟩
    · exact .layout ho hread hdecode hlayout
    rcases (writeFile_break_iff input).mp hwrite with
      ⟨g, hencode, rfl⟩ | ⟨st₅, g, hmade, hencode, rfl⟩
    · exact .directory ho hread hdecode hlayout hout hencode
    · exact .output ho hread hdecode hlayout hout hlog hmade hencode

theorem Break.report? (h : Break host input s st f) : f.report? input = none := by
  cases h with
  | config hconfig hbreak => exact hbreak.report? input
  | input ho hbreak => exact (chunkAt_break_iff.mpr hbreak).2
  | _ => rfl

theorem Break.execute (h : Break host input s st f) :
    ((execute host input s).run st).1 = .error f := by
  rw [execute_eq_error_iff]
  cases h with
  | config hconfig hbreak =>
    have hresolve := (resolveOptions_break_iff input).mpr (.inl ⟨_, hconfig, hbreak⟩)
    exact .inl hresolve.1
  | policy hbase hothers hname hfault =>
    have hoverrides := withOverrides_eq_policy_iff.mpr ⟨hothers, _, hname, hfault⟩
    have hresolve := (resolveOptions_break_iff input).mpr
      (.inr ⟨_, _, _, hbase, hoverrides, rfl⟩)
    exact .inl hresolve.1
  | input ho hbreak =>
    have hread := readInput_break_iff.mpr hbreak
    exact .inr ⟨_, _, ho, .inl hread.1⟩
  | @writing o b st₁ st₂ ho hread hfails =>
    have hdecode : ((decodeChunk o b).run st₂).1 = .error (.scan (.policy .writingOnly)) :=
      And.left ((decodeChunk_break_iff input).mpr ⟨rfl, hfails⟩)
    exact .inr ⟨o, st₁, ho, .inr ⟨b, st₂, hread, .inl hdecode⟩⟩
  | @layout o b c st₁ st₂ st₃ g ho hread hdecode hlayout =>
    have hemit : ((emit host input s c).run st₃).1 = .error (.indent g) :=
      And.left (emit_break_iff.mpr (.inl ⟨g, hlayout, rfl⟩))
    exact .inr ⟨o, st₁, ho, .inr ⟨b, st₂, hread, .inr ⟨c, st₃, hdecode, hemit⟩⟩⟩
  | @directory o b c st₁ st₂ st₃ layout p g ho hread hdecode hlayout hout hencode =>
    have hemit : ((emit host input s c).run st₃).1 = .error (.file (.path g)) :=
      And.left (emit_break_iff.mpr (.inr ⟨layout, p, _, hlayout, hout, rfl,
        (writeFile_break_iff input).mpr (.inl ⟨g, hencode, rfl⟩)⟩))
    exact .inr ⟨o, st₁, ho, .inr ⟨b, st₂, hread, .inr ⟨c, st₃, hdecode, hemit⟩⟩⟩
  | @output o b c st₁ st₂ st₃ st₄ st₅ layout p g ho hread hdecode hlayout hout hlog hmade
      hencode =>
    have hemit : ((emit host input s c).run st₃).1 = .error (.file (.path g)) :=
      And.left (emit_break_iff.mpr (.inr ⟨layout, p, st₄, hlayout, hout, hlog,
        (writeFile_break_iff input).mpr (.inr ⟨st₅, g, hmade, hencode, rfl⟩)⟩))
    exact .inr ⟨o, st₁, ho, .inr ⟨b, st₂, hread, .inr ⟨c, st₃, hdecode, hemit⟩⟩⟩

theorem finish_brokenOff_iff {r : Except Failure Text × Log.State} :
    (finish input r).ending = .brokenOff f ↔ r.1 = .error f ∧ f.report? input = none := by
  obtain ⟨r, st'⟩ := r
  cases r with
  | ok output => exact ⟨nofun, nofun⟩
  | error f' =>
    rw [finish]
    cases hreport : f'.report? input with
    | some message =>
      constructor
      · intro h
        cases h
      · rintro ⟨⟨⟩, hnone⟩
        cases hreport.symm.trans hnone
    | none =>
      constructor
      · rintro ⟨⟩
        exact ⟨rfl, hreport⟩
      · rintro ⟨⟨⟩, _⟩
        rfl

theorem execute_break_iff :
    (finish input ((execute host input s).run st)).ending = .brokenOff f ↔
      Break host input s st f := by
  rw [finish_brokenOff_iff]
  exact ⟨fun h => break_of_execute h.1 h.2, fun h => ⟨h.execute, h.report?⟩⟩

theorem exit_or_brokenOff (input : Path) (r : Except Failure Text × Log.State) :
    (finish input r).ending = .exit 0 ∨ (finish input r).ending = .exit 1 ∨
      ∃ f, (finish input r).ending = .brokenOff f := by
  obtain ⟨r, st'⟩ := r
  cases r with
  | ok output => exact .inl rfl
  | error f =>
    rw [finish]
    cases f.report? input with
    | some message => exact .inr (.inl rfl)
    | none => exact .inr (.inr ⟨f, rfl⟩)

section

variable {files : FileTree}

theorem run_of_trace {p : Path} (htrace : s.trace = some p) : run host input s files =
    match (initialState s files).openTrace p Log.Level.debug.weight with
    | (.error e, st) => ⟨.brokenOff (.file e), Text.empty, st⟩
    | (.ok (), st) => finish input ((execute host input s).run st) := by
  rw [run, htrace]
  rfl

theorem run_brokenOff_iff :
    (run host input s files).ending = .brokenOff f ↔ Breaks host input s files f := by
  unfold Breaks
  cases htrace : s.trace with
  | none => rw [run_eq htrace, execute_break_iff]
  | some p =>
    rw [run_of_trace htrace]
    obtain ⟨r, st, hopen⟩ : ∃ r st,
      (initialState s files).openTrace p Log.Level.debug.weight = (r, st) := ⟨_, _, rfl⟩
    simp only [hopen]
    cases r with
    | error e => simp only [Ending.brokenOff.injEq, eq_comm]
    | ok u => exact execute_break_iff

theorem run_exit_or_brokenOff (host : Host) (input : Path) (s : Settings) (files : FileTree) :
    (run host input s files).ending = .exit 0 ∨ (run host input s files).ending = .exit 1 ∨
      ∃ f, (run host input s files).ending = .brokenOff f := by
  cases htrace : s.trace with
  | none =>
    rw [run_eq htrace]
    exact exit_or_brokenOff input _
  | some p =>
    rw [run_of_trace htrace]
    split
    · exact .inr (.inr ⟨_, rfl⟩)
    · exact exit_or_brokenOff input _

/-- On any host, whatever its compiler does, a run is broken off just by what is listed, with the
failure that comes of it, and otherwise it ends with status zero or one. -/
theorem run_ending (host : Host) (input : Path) (s : Settings) (files : FileTree) :
    (∀ f, (run host input s files).ending = .brokenOff f ↔ Breaks host input s files f) ∧
      ((run host input s files).ending = .exit 0 ∨ (run host input s files).ending = .exit 1 ↔
        ¬∃ f, Breaks host input s files f) := by
  refine ⟨fun f => run_brokenOff_iff, ?_⟩
  simp only [← run_brokenOff_iff]
  rcases run_exit_or_brokenOff host input s files with hzero | hone | ⟨f, hbroken⟩
  · simp [hzero]
  · simp [hone]
  · simp [hbroken]

end

end

/-! ### A trace file below a file -/

def nestedTraceArguments : List Text := ["a.luac", "--trace", "a.luac/t.log"]

/-- A run whose trace file is to lie in a directory that is a file ends with no exit status. -/
theorem run_not_always_exits :
    ¬ ∃ host : Host, ∀ (arguments : List Text) (input : Path) (s : Settings) (files : FileTree),
      parseArguments arguments = .ok (.run input s) →
        (run host input s files).ending = .exit 0 ∨ (run host input s files).ending = .exit 1 := by
  rintro ⟨host, hexits⟩
  let s : Settings := { trace := some (.ofText "a.luac/t.log") }
  have hparse : parseArguments nestedTraceArguments = .ok (.run sampleInput s) := by
    rfl
  let names : List Bytes := [("a.luac" : Text).codes.flatMap Utf8.encode]
  have hlength : FileTree.pathLength sampleInput names ≤ FileTree.maxPathLength := by decide
  have hends : FileTree.EndsAs ((FileTree.ensureDirectories sampleInput).run sampleFiles)
      (sampleFiles.makeWay [] names) :=
    FileTree.ensureDirectories_endsAs rfl hlength sampleFiles
  have hway : sampleFiles.makeWay [] names = (false, sampleFiles) := rfl
  rw [hway] at hends
  obtain ⟨e, hmade⟩ := hends.of_stopped
  have hopen := Log.openTrace_of_stopped (s := initialState s sampleFiles)
    (p := .ofText "a.luac/t.log") hmade Log.Level.debug.weight
  have hbroken : (run host sampleInput s sampleFiles).ending = .brokenOff (.file (.system e)) := by
    rw [run_of_trace rfl, hopen]
  rcases hexits _ _ _ _ hparse with hzero | hone
  · cases hbroken.symm.trans hzero
  · cases hbroken.symm.trans hone

end CommandLine

end LuaBytecode
