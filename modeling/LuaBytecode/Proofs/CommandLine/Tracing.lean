import LuaBytecode.Proofs.CommandLine.Arguments
import LuaBytecode.Proofs.CommandLine.Endings
import LuaBytecode.Proofs.Files.Beside

/-!
# Runs with and without a trace file

A trace file that stays out of the way of a run changes nothing of it but the files it is made of.
The two runs are followed side by side: up to the JSON file the plain run leaves all files as they
are and the traced one differs by what its trace file takes; then both write the same file, each
into its own tree.
-/

namespace LuaBytecode.CommandLine

open Session
open FileTree (Beside SameOutcome)
open Log (Single Appended)

/-- Where the JSON file lies. -/
def Settings.Writes (s : Settings) (m : Location) : Prop :=
  ∃ p names, s.jsonOut = some p ∧ p.encode = .ok names ∧
    m = names.foldl Location.step (Location.start p)

/-- Directories that were made for a trace file. -/
def Made (files opened : FileTree) (m : Location) : Prop :=
  files.node? m = none ∧ opened.node? m = some .directory

/-- If a path leads to a file once the trace file at `l` is open, then to another one, and it led
there before. -/
def Undisturbed (files opened : FileTree) (l : Location) (p : Path) : Prop :=
  ∀ m content, opened.locate p = .ok m → opened.node? m = some (.file content) →
    m ≠ l ∧ files.locate p = .ok m

/-- The trace file at `l` and the directories made for it are out of the way of a run: they are not
what it reads, and they do not stand where it writes. -/
structure Apart (input : Path) (s : Settings) (files opened : FileTree) (l : Location) : Prop where
  input : Undisturbed files opened l input
  config : ∀ p, s.config = some p → Undisturbed files opened l p
  directories : ∀ p names, s.jsonOut = some p → p.parent.encode = .ok names →
    l ∈ (Location.start p).way names → files.node? l ≠ none
  output : ∀ m, s.Writes m → m ≠ l ∧ ¬Made files opened m

/-- The two runs before the JSON file is written. -/
structure Before (files opened : FileTree) (l : Location) (a b : Log.State) : Prop where
  traces : a.traces = []
  files : a.files = files
  single : ∃ file content, Single b file content ∧ file.location = l
  others : ∀ m, m ≠ l → b.files.node? m = opened.node? m

/-- The two runs at any time. -/
structure After (s : Settings) (files opened : FileTree) (l : Location) (a b : Log.State) :
    Prop where
  traces : a.traces = []
  single : ∃ file content, Single b file content ∧ file.location = l
  beside : Beside (Made files opened) l a.files b.files
  directories : ∀ m, files.node? m = some .directory → a.files.node? m = some .directory
  kept : ∀ m, ¬s.Writes m → ∀ content,
    a.files.node? m = some (.file content) ↔ files.node? m = some (.file content)

/-- Two steps end with the same result, or both fail, and the second failure is reported if the
first one is. -/
inductive Twin (input : Path) (Done Failed : Log.State → Log.State → Prop) {α : Type} :
    Except Failure α × Log.State → Except Failure α × Log.State → Prop
  | ok {v : α} {a b : Log.State} (h : Done a b) : Twin input Done Failed (.ok v, a) (.ok v, b)
  | error {f g : Failure} {a b : Log.State}
    (hreport : f.report? input ≠ none → g.report? input ≠ none) (h : Failed a b) :
    Twin input Done Failed (.error f, a) (.error g, b)

section

variable {input : Path} {Failed : Log.State → Log.State → Prop} {α β : Type}

/-- A step from related states does the same in both, as far as `Twin` says. -/
def Transparent (input : Path) (Failed R R' : Log.State → Log.State → Prop) (x : Session α) :
    Prop :=
  ∀ a b, R a b → Twin input R' Failed (x.run a) (x.run b)

variable {R R' R'' : Log.State → Log.State → Prop}

theorem Transparent.bind {x : Session α} {f : α → Session β}
    (hx : Transparent input Failed R R' x) (hf : ∀ v, Transparent input Failed R' R'' (f v)) :
    Transparent input Failed R R'' (x >>= f) := by
  intro a b h
  have hstep := hx a b h
  obtain ⟨r, a', ha⟩ : ∃ r a', x.run a = (r, a') := ⟨_, _, rfl⟩
  obtain ⟨r', b', hb⟩ : ∃ r' b', x.run b = (r', b') := ⟨_, _, rfl⟩
  rw [ha, hb] at hstep
  cases hstep with
  | ok hdone =>
    rw [Action.run_bind_of_ok ha, Action.run_bind_of_ok hb]
    exact hf _ a' b' hdone
  | error hreport hfailed =>
    rw [Action.run_bind_of_error ha, Action.run_bind_of_error hb]
    exact .error hreport hfailed

theorem transparent_pure (v : α) : Transparent input Failed R R (pure v) :=
  fun _ _ h => .ok h

theorem transparent_liftResult (hfailed : ∀ a b, R a b → Failed a b) (r : Except Failure α) :
    Transparent input Failed R R (liftResult r) := by
  intro a b h
  rw [run_liftResult, run_liftResult]
  cases r with
  | ok v => exact .ok h
  | error f => exact .error id (hfailed a b h)

theorem twin_of_sameOutcome {r r' : Except FileFault α} (h : SameOutcome r r')
    {Done : Log.State → Log.State → Prop} {a b : Log.State} (hdone : Done a b)
    (hfailed : Failed a b) :
    Twin input Done Failed (r.mapError Failure.file, a) (r'.mapError Failure.file, b) := by
  cases h with
  | ok v => exact .ok hdone
  | refused e e' => exact .error (fun _ => nofun) hfailed
  | path g => exact .error id hfailed

end

/-! ### Records -/

theorem untraced_log {st : Log.State} (h : st.traces = []) (r : Log.Record) :
    (st.log r).traces = [] ∧ (st.log r).files = st.files := by
  rw [Log.State.log_of_untraced h]
  split
  · exact ⟨h, rfl⟩
  · exact ⟨h, rfl⟩

section

variable {input : Path} {s : Settings} {files opened : FileTree} {l : Location} {a b : Log.State}

theorem Before.log (h : Before files opened l a b) (r : Log.Record) :
    Before files opened l (a.log r) (b.log r) := by
  obtain ⟨htraces, hfiles⟩ := untraced_log h.traces r
  obtain ⟨file, content, hsingle, hl⟩ := h.single
  have happended := hsingle.log r
  refine ⟨htraces, hfiles.trans h.files, ⟨_, _, happended.single hsingle, hl⟩, fun m hm => ?_⟩
  rw [happended.others m (hl ▸ hm), h.others m hm]

theorem Before.logAll (h : Before files opened l a b) (rs : List Log.Record) :
    Before files opened l (a.logAll rs) (b.logAll rs) := by
  induction rs generalizing a b with
  | nil => exact h
  | cons r rest ih => exact ih (h.log r)

theorem After.log (h : After s files opened l a b) (r r' : Log.Record) :
    After s files opened l (a.log r) (b.log r') := by
  obtain ⟨htraces, hfiles⟩ := untraced_log h.traces r
  obtain ⟨file, content, hsingle, hl⟩ := h.single
  have happended := hsingle.log r'
  subst hl
  refine ⟨htraces, ⟨_, _, happended.single hsingle, rfl⟩, ?_, ?_, ?_⟩
  · rw [hfiles]
    refine ⟨⟨_, happended.node⟩, h.beside.plain, fun m hm => ?_⟩
    rw [happended.others m hm]
    exact h.beside.others m hm
  · rw [hfiles]
    exact h.directories
  · rw [hfiles]
    exact h.kept

/-- A step that leaves both runs before the JSON file. -/
def Steady {α : Type} (input : Path) (s : Settings) (files opened : FileTree) (l : Location)
    (x : Session α) : Prop :=
  Transparent input (After s files opened l) (Before files opened l) (Before files opened l) x

theorem steady_log (source : Log.Source) (level : Log.Level) (message : Text) :
    Steady input s files opened l (log source level message) :=
  fun _ _ h => .ok (h.log ⟨source, level, message⟩)

variable (hopened : Beside (Made files opened) l files opened)

include hopened

theorem Before.beside (h : Before files opened l a b) :
    Beside (Made files opened) l a.files b.files := by
  obtain ⟨file, content, hsingle, hl⟩ := h.single
  rw [h.files]
  refine ⟨⟨content, hl ▸ hsingle.node⟩, hopened.plain, fun m hm => ?_⟩
  rw [h.others m hm]
  exact hopened.others m hm

theorem Before.after (h : Before files opened l a b) : After s files opened l a b where
  traces := h.traces
  single := h.single
  beside := h.beside hopened
  directories m hm := by rw [h.files, hm]
  kept m _ content := by rw [h.files]

/-! ### What is read -/

theorem Before.read (h : Before files opened l a b) {p : Path}
    (hp : Undisturbed files opened l p) : SameOutcome (a.files.read p) (b.files.read p) := by
  have hbeside := h.beside hopened
  refine hbeside.read fun m content hlocate hnode => ?_
  -- The trace file may have grown, but that leads no path elsewhere.
  have hdirectories : ∀ m, b.files.node? m = some .directory →
      opened.node? m = some .directory := by
    intro m hm
    by_cases hl : m = l
    · obtain ⟨content, hcontent⟩ := hbeside.file
      rw [hl, hcontent] at hm
      cases hm
    · rwa [h.others m hl] at hm
  have hlocate' := FileTree.locate_of_directories hdirectories hlocate
  rw [h.files]
  by_cases hl : m = l
  · obtain ⟨content', hcontent'⟩ := hopened.file
    exact hp m content' hlocate' (hl ▸ hcontent')
  · exact hp m content hlocate' ((h.others m hl).symm.trans hnode)

theorem steady_liftResult {α : Type} (r : Except Failure α) :
    Steady input s files opened l (liftResult r) :=
  transparent_liftResult (fun _ _ h => h.after hopened) r

theorem steady_readFile {p : Path} (hp : Undisturbed files opened l p) :
    Steady input s files opened l (readFile p) := by
  intro a b h
  rw [run_readFile, run_readFile]
  exact twin_of_sameOutcome (h.read hopened hp) h (h.after hopened)

theorem steady_loadOptionsWithin {p : Path} (hp : Undisturbed files opened l p) (nesting : Nat) :
    Steady input s files opened l (loadOptionsWithin nesting p) := by
  intro a b h
  have hread := h.read hopened hp
  rw [run_loadOptionsWithin, run_loadOptionsWithin, FileTree.optionsAt, FileTree.optionsAt]
  generalize a.files.read p = r at hread
  generalize b.files.read p = r' at hread
  cases hread with
  | ok content =>
    simp only
    cases optionsOf nesting p content with
    | ok o => exact .ok (h.log _)
    | error f => exact .error id (h.after hopened)
  | refused e e' => exact .error (fun _ => nofun) (h.after hopened)
  | path g => exact .error id (h.after hopened)

theorem steady_resolveOptions (hconfig : ∀ p, s.config = some p → Undisturbed files opened l p)
    (nesting : Nat) : Steady input s files opened l (resolveOptions nesting s) := by
  have hbase : Steady input s files opened l (baseOptions nesting s) := by
    unfold baseOptions
    cases hp : s.config with
    | none => exact transparent_pure default
    | some p => exact steady_loadOptionsWithin hopened (hconfig p hp) nesting
  rw [resolveOptions_eq]
  exact hbase.bind fun base => steady_liftResult hopened _

theorem steady_compileSource (compiler : Option Compiler) (name : Option Text) (text : Text) :
    Steady input s files opened l (compileSource compiler name text) := by
  intro a b h
  rw [run_compileSource, run_compileSource]
  cases compile compiler (labelOr defaultChunkName name) text with
  | ok data => exact .ok (h.log _)
  | error f => exact .error id (h.after hopened)

theorem steady_readInput (hinput : Undisturbed files opened l input)
    (compiler : Option Compiler) :
    Steady input s files opened l (readInput compiler input s) := by
  have hread : Steady input s files opened l (readFile input) := steady_readFile hopened hinput
  unfold readInput
  split
  · exact hread.bind fun content => (steady_liftResult hopened (textOf content)).bind fun text =>
      steady_compileSource hopened compiler (chunkName input) text
  · exact hread.bind fun content => (steady_log .files .info _).bind fun _ =>
      transparent_pure content

theorem steady_decodeChunk (o : Options) (data : Bytes) :
    Steady input s files opened l (decodeChunk o data) := by
  intro a b h
  rw [run_decodeChunk, run_decodeChunk]
  have hlogged := h.logAll ((decode o data).2.map Log.Record.ofNote)
  cases (decode o data).1 with
  | ok c => exact .ok hlogged
  | error f => exact .error id (hlogged.after hopened)

end

/-! ### What is written -/

section

variable {input : Path} {s : Settings} {files opened : FileTree} {l : Location} {a b : Log.State}

/-- Both runs have gone on, and only in their trees. -/
theorem After.of_trees (h : After s files opened l a b) {t u : FileTree}
    (hbeside : Beside (Made files opened) l t u) (hnode : u.node? l = b.files.node? l)
    (hdirectories : ∀ m, a.files.node? m = some .directory → t.node? m = some .directory)
    (hkept : ∀ m, ¬s.Writes m → ∀ content,
      t.node? m = some (.file content) ↔ a.files.node? m = some (.file content)) :
    After s files opened l { a with files := t } { b with files := u } where
  traces := h.traces
  single := by
    obtain ⟨file, content, hsingle, hl⟩ := h.single
    subst hl
    exact ⟨file, content, ⟨hsingle.traces, hnode.trans hsingle.node, hsingle.position,
      hsingle.threshold⟩, rfl⟩
  beside := hbeside
  directories m hm := hdirectories m (h.directories m hm)
  kept m hm content := (hkept m hm content).trans (h.kept m hm content)

/-- Both runs have put the same file where the JSON file lies. -/
theorem After.put (h : After s files opened l a b) {m : Location} (hm : s.Writes m)
    (hne : m ≠ l) (hnode : a.files.node? m ≠ some .directory) (content : Bytes) :
    After s files opened l { a with files := a.files.put m (.file content) }
      { b with files := b.files.put m (.file content) } := by
  have hother : ∀ m', ¬s.Writes m' → m' ≠ m := by
    rintro m' hm' rfl
    exact hm' hm
  refine h.of_trees (h.beside.put hne (FileTree.isOutside_of_node? hnode) _)
    (FileTree.node?_put_of_ne hne.symm _) (fun m' hm' => ?_) fun m' hm' content' => ?_
  · have hdifferent : m' ≠ m := by
      rintro rfl
      exact hnode hm'
    rw [FileTree.node?_put_of_ne hdifferent, hm']
  · rw [FileTree.node?_put_of_ne (hother m' hm')]

/-- The directories above the JSON file have been made in both trees. -/
structure Prepared (s : Settings) (files opened : FileTree) (l : Location) (p : Path)
    (a b : Log.State) : Prop where
  after : After s files opened l a b
  locate : b.files.locate p = a.files.locate p

theorem transparent_directories {p : Path}
    (hopened : Beside (Made files opened) l files opened)
    (hdirectories : ∀ names, p.parent.encode = .ok names → l ∈ (Location.start p).way names →
      files.node? l ≠ none) :
    Transparent input (After s files opened l) (Before files opened l)
      (Prepared s files opened l p) (onFiles (FileTree.ensureDirectories p.parent)) := by
  intro a b h
  have hafter : After s files opened l a b := h.after hopened
  obtain ⟨r, t, hmade⟩ : ∃ r t, (FileTree.ensureDirectories p.parent).run a.files = (r, t) :=
    ⟨_, _, rfl⟩
  obtain ⟨r', u, hmade'⟩ : ∃ r' u, (FileTree.ensureDirectories p.parent).run b.files = (r', u) :=
    ⟨_, _, rfl⟩
  have hgrown := FileTree.ensureDirectories_grown p.parent a.files
  have hgrown' := FileTree.ensureDirectories_grown p.parent b.files
  have hboth := hafter.beside.ensureDirectories p.parent (by rw [h.files]; exact hdirectories)
  rw [hmade] at hgrown hboth
  rw [hmade'] at hgrown' hboth
  obtain ⟨houtcome, hbeside⟩ := hboth
  have hnext : After s files opened l { a with files := t } { b with files := u } := by
    obtain ⟨content, hcontent⟩ := hafter.beside.file
    refine hafter.of_trees hbeside ?_ (fun m hm => hgrown.directory hm) fun m _ content =>
      hgrown.file_iff
    exact (hgrown'.file_iff.mpr hcontent).trans hcontent.symm
  rw [run_onFiles, run_onFiles, hmade, hmade']
  cases houtcome with
  | ok => exact .ok ⟨hnext, FileTree.locate_of_made hmade hmade'⟩
  | refused e e' => exact .error (fun _ => nofun) hnext
  | path g => exact .error id hnext

theorem transparent_fill {p : Path} (hout : s.jsonOut = some p)
    (houtput : ∀ m, s.Writes m → m ≠ l ∧ ¬Made files opened m) (data : Bytes) :
    Transparent input (After s files opened l) (Prepared s files opened l p)
      (After s files opened l) (do
        let location ← onFiles (FileTree.truncate p)
        modify fun state => { state with files := state.files.writeAt location 0 data }) := by
  intro a b h
  have hwrites : ∀ m, a.files.locate p = .ok m → s.Writes m := by
    intro m hm
    obtain ⟨names, hencode, hm⟩ := FileTree.exists_of_locate hm
    exact ⟨p, names, hout, hencode, hm⟩
  obtain ⟨r, t, ht⟩ : ∃ r t, (FileTree.truncate p).run a.files = (r, t) := ⟨_, _, rfl⟩
  obtain ⟨r', u, hu⟩ : ∃ r' u, (FileTree.truncate p).run b.files = (r', u) := ⟨_, _, rfl⟩
  have hboth := h.after.beside.truncate h.locate fun m hm => houtput m (hwrites m hm)
  rw [ht, hu] at hboth
  have hrun : (onFiles (FileTree.truncate p)).run a =
      (r.mapError .file, { a with files := t }) := by
    rw [run_onFiles, ht]
  have hrun' : (onFiles (FileTree.truncate p)).run b =
      (r'.mapError .file, { b with files := u }) := by
    rw [run_onFiles, hu]
  cases hboth.1 with
  | refused e e' =>
    obtain rfl := FileTree.truncate_run_of_error ht
    obtain rfl := FileTree.truncate_run_of_error hu
    rw [Action.run_bind_of_error hrun, Action.run_bind_of_error hrun']
    exact .error (fun _ => nofun) h.after
  | path g =>
    obtain rfl := FileTree.truncate_run_of_error ht
    obtain rfl := FileTree.truncate_run_of_error hu
    rw [Action.run_bind_of_error hrun, Action.run_bind_of_error hrun']
    exact .error id h.after
  | ok m =>
    obtain ⟨hlocate, hnode, rfl⟩ := FileTree.truncate_run_eq_ok_iff.mp ht
    obtain ⟨_, hnode', rfl⟩ := FileTree.truncate_run_eq_ok_iff.mp hu
    have hm := hwrites m hlocate
    have hne := (houtput m hm).1
    have hempty : ∀ t : FileTree, t.node? m ≠ some .directory →
        (t.put m (.file [])).node? m = some (.file []) :=
      fun t ht => FileTree.node?_put_self (FileTree.isOutside_of_node? ht) _
    have hfile : (a.files.put m (.file [])).node? m ≠ some .directory := by
      rw [hempty a.files hnode]
      exact nofun
    have hdone := (h.after.put hm hne hnode []).put hm hne hfile data
    rw [Action.run_bind_of_ok hrun, Action.run_bind_of_ok hrun']
    simp only [← FileTree.writeAt_zero_of_empty (hempty _ hnode),
      ← FileTree.writeAt_zero_of_empty (hempty _ hnode')] at hdone
    exact .ok hdone

section

variable (hopened : Beside (Made files opened) l files opened)
  (hapart : Apart input s files opened l)

include hopened hapart

theorem transparent_writeFile {p : Path} (hout : s.jsonOut = some p) (t : Text) :
    Transparent input (After s files opened l) (Before files opened l) (After s files opened l)
      (writeFile p t) :=
  (transparent_directories hopened fun names => hapart.directories p names hout).bind fun _ =>
    transparent_fill hout hapart.output _

theorem transparent_emit (host : Host) (c : Chunk) :
    Transparent input (After s files opened l) (Before files opened l) (After s files opened l)
      (emit host input s c) := by
  have hdecoded : Steady input s files opened l (logDecoded input c) := steady_log _ _ _
  unfold emit
  refine hdecoded.bind fun _ => (steady_liftResult hopened _).bind fun layout => ?_
  cases hout : s.jsonOut with
  | none => exact fun a b h => .ok (h.after hopened)
  | some p =>
    have hwritten : Transparent input (After s files opened l) (After s files opened l)
        (After s files opened l) (logWritten p) := fun a b h => .ok (h.log _ _)
    exact (transparent_writeFile hopened hapart hout _).bind fun _ => hwritten.bind fun _ =>
      transparent_pure Text.empty

theorem transparent_execute (host : Host) :
    Transparent input (After s files opened l) (Before files opened l) (After s files opened l)
      (execute host input s) := by
  have hresolve : Steady input s files opened l (resolveOptions host.nesting s) :=
    steady_resolveOptions hopened hapart.config host.nesting
  have hread : Steady input s files opened l (readInput host.compiler input s) :=
    steady_readInput hopened hapart.input host.compiler
  rw [execute_eq]
  exact hresolve.bind fun o => hread.bind fun b => (steady_decodeChunk hopened o b).bind fun c =>
    transparent_emit hopened hapart host c

end

end

/-! ### The runs -/

section

variable {host : Host} {input : Path} {s : Settings} {files opened : FileTree} {l : Location}

theorem finish_of_twin {x y : Except Failure Text × Log.State}
    (h : Twin input (After s files opened l) (After s files opened l) x y) {status : Nat}
    (hexit : (finish input x).ending = .exit status) :
    (finish input y).ending = (finish input x).ending ∧
      (finish input y).output = (finish input x).output ∧
      ∃ a b, After s files opened l a b ∧ (finish input x).state = a.closeTrace ∧
        (finish input y).state = b.closeTrace := by
  cases h with
  | @ok v a b h => exact ⟨rfl, rfl, a, b, h, rfl, rfl⟩
  | @error f g a b hreport h =>
    rw [finish] at hexit ⊢
    rw [finish]
    cases hf : f.report? input with
    | none =>
      rw [hf] at hexit
      cases hexit
    | some message =>
      cases hg : g.report? input with
      | none => exact absurd hg (hreport (by rw [hf]; exact Option.some_ne_none _))
      | some message' => exact ⟨rfl, rfl, _, _, h.log _ _, rfl, rfl⟩

/-- The traced run ends and prints as the plain one does and leaves the same files behind, but for
the trace file at `l`, which it has closed. What the JSON file does not replace is as it was. -/
structure Unaltered (input : Path) (s : Settings) (files : FileTree) (l : Location)
    (plain traced : Outcome) : Prop where
  ending : traced.ending = plain.ending
  output : traced.output = plain.output
  same : ∀ m, m ≠ l → ∀ content, traced.state.files.node? m = some (.file content) ↔
    plain.state.files.node? m = some (.file content)
  written : ∀ p content, s.jsonOut = some p → plain.state.files.read p = .ok content →
    traced.state.files.read p = .ok content
  unchanged : ∀ p content, p = input ∨ s.config = some p → files.read p = .ok content →
    (∀ m, files.locate p = .ok m → ¬s.Writes m) → traced.state.files.read p = .ok content
  kept : ∀ m, m ≠ l → ¬s.Writes m → ∀ content,
    traced.state.files.node? m = some (.file content) ↔ files.node? m = some (.file content)
  closed : traced.state.traces = []

theorem beside_of_opened {p q : Path} {made : FileTree}
    (hmade : (FileTree.ensureDirectories p).run files = (.ok (), made))
    (hopened : (FileTree.truncate q).run made = (.ok l, opened)) :
    Beside (Made files opened) l files opened := by
  have hgrown := FileTree.ensureDirectories_grown p files
  rw [hmade] at hgrown
  obtain ⟨_, hnode, rfl⟩ := FileTree.truncate_run_eq_ok_iff.mp hopened
  refine ⟨⟨[], FileTree.node?_put_self (FileTree.isOutside_of_node? hnode) _⟩,
    fun hdirectory => hnode (hgrown.directory hdirectory), fun m hm => ?_⟩
  have hput := FileTree.node?_put_of_ne (t := made) hm (.file [])
  rcases hgrown m with hsame | ⟨hnone, hdirectory⟩
  · exact .inl (hput.trans hsame)
  · exact .inr ⟨hnone, hput.trans hdirectory, hnone, hput.trans hdirectory⟩

theorem After.read_written {a b : Log.State} (h : After s files opened l a b)
    (hapart : Apart input s files opened l) {p : Path} {content : Bytes} (hout : s.jsonOut = some p)
    (hread : a.files.read p = .ok content) : b.files.read p = .ok content := by
  obtain ⟨m, hlocate, hnode⟩ := FileTree.read_eq_ok_iff.mp hread
  obtain ⟨names, hencode, hm⟩ := FileTree.exists_of_locate hlocate
  have hne := (hapart.output m ⟨p, names, hout, hencode, hm⟩).1
  exact FileTree.read_eq_ok_iff.mpr
    ⟨m, FileTree.locate_of_directories (fun _ => h.beside.directory) hlocate,
      (h.beside.file_iff hne).mpr hnode⟩

theorem After.read_unchanged {a b : Log.State} (h : After s files opened l a b)
    (hopened : Beside (Made files opened) l files opened) {p : Path} {content : Bytes}
    (hp : Undisturbed files opened l p) (hread : files.read p = .ok content)
    (hother : ∀ m, files.locate p = .ok m → ¬s.Writes m) : b.files.read p = .ok content := by
  obtain ⟨m, hlocate, hnode⟩ := FileTree.read_eq_ok_iff.mp hread
  have hne : m ≠ l := by
    rintro rfl
    obtain ⟨content', hcontent'⟩ := hopened.file
    have hlocate' := FileTree.locate_of_directories (fun _ => hopened.directory) hlocate
    exact (hp m content' hlocate' hcontent').1 rfl
  have hdirectories : ∀ m, files.node? m = some .directory → b.files.node? m = some .directory :=
    fun m hm => h.beside.directory (h.directories m hm)
  exact FileTree.read_eq_ok_iff.mpr ⟨m, FileTree.locate_of_directories hdirectories hlocate,
    (h.beside.file_iff hne).mpr ((h.kept m (hother m hlocate) content).mpr hnode)⟩

theorem run_of_opened {path : Path} {st : Log.State}
    (hopen : (initialState s files).openTrace path Log.Level.debug.weight = (.ok (), st)) :
    run host input { s with trace := some path } files =
      finish input ((execute host input s).run st) := by
  -- The settings of the two runs differ in the trace file only, which nothing later looks at.
  have hstate : initialState { s with trace := some path } files = initialState s files := rfl
  have hexecute : execute host input { s with trace := some path } = execute host input s := rfl
  rw [run_of_trace (p := path) rfl, hstate, hopen, hexecute]

/-- Once the trace file is open the two runs stand as they do before the JSON file. -/
theorem exists_before {path : Path} {st : Log.State}
    (hopen : (initialState s files).openTrace path Log.Level.debug.weight = (.ok (), st))
    (hl : st.files.locate path.untilNull = .ok l) :
    Beside (Made files st.files) l files st.files ∧
      Before files st.files l (initialState s files) st := by
  have hopening := Log.opening (initialState s files) path Log.Level.debug.weight
  rw [hopen] at hopening
  cases hopening with
  | @opened l' made opened hmade hopened =>
    have hbeside : Beside (Made files opened) l' files opened := beside_of_opened hmade hopened
    obtain ⟨hlocate, hnode, rfl⟩ := FileTree.truncate_run_eq_ok_iff.mp hopened
    obtain rfl : l' = l :=
      Except.ok.inj ((FileTree.locate_put hnode (.file []) hlocate).symm.trans hl)
    have hempty := FileTree.node?_put_self (t := made) (FileTree.isOutside_of_node? hnode) (.file [])
    exact ⟨hbeside, rfl, rfl, ⟨_, [], ⟨rfl, hempty, rfl, rfl⟩, rfl⟩, fun _ _ => rfl⟩

theorem unaltered_of_opened {path : Path} {st : Log.State} {status : Nat} (htrace : s.trace = none)
    (hexit : (run host input s files).ending = .exit status)
    (hopen : (initialState s files).openTrace path Log.Level.debug.weight = (.ok (), st))
    (hl : st.files.locate path.untilNull = .ok l) (hapart : Apart input s files st.files l) :
    Unaltered input s files l (run host input s files)
      (run host input (s.withTrace (some path)) files) := by
  obtain ⟨hopened, hbefore⟩ := exists_before hopen hl
  have htwin := transparent_execute hopened hapart host _ _ hbefore
  rw [run_eq htrace] at hexit ⊢
  rw [Settings.withTrace, run_of_opened hopen]
  obtain ⟨hending, houtput, a, b, hafter, hplain, hstate⟩ := finish_of_twin htwin hexit
  refine ⟨hending, houtput, ?_, ?_, ?_, ?_, ?_⟩
  all_goals rw [hstate]
  · rw [hplain]
    exact fun m hm content => hafter.beside.file_iff hm
  · rw [hplain]
    exact fun p content hout => hafter.read_written hapart hout
  · rintro p content (rfl | hconfig)
    · exact hafter.read_unchanged hopened hapart.input
    · exact hafter.read_unchanged hopened (hapart.config p hconfig)
  · exact fun m hm hother content => (hafter.beside.file_iff hm).trans (hafter.kept m hother content)
  · rfl

end

/-! ### Runs on a sample -/

def writingSettings : Settings := { jsonOut := some (.ofText "tree.json") }

def writingArguments : List Text := ["--json-out", "tree.json", "a.luac"]

def writingKinds : List Argument :=
  [.flag .jsonOut false none, .plain "tree.json", .plain "a.luac"]

theorem classify_writing : Argument.classify writingArguments = .ok writingKinds := by
  have hflag : Argument.ofText "--json-out" = .ok (.flag .jsonOut false none) := by rfl
  exact classify_cons (by decide) hflag (classify_cons (by decide) (ofText_of_head (by decide))
    (classify_cons (by decide) (ofText_of_head (by decide)) rfl))

theorem untraced_writing : Untraced writingKinds := by
  intro short value hmem
  cases hmem with
  | tail _ hmem => cases hmem with
    | tail _ hmem => cases hmem with
      | tail _ hmem => cases hmem

theorem parse_writing :
    parseArguments writingArguments = .ok (.run sampleInput writingSettings) := by
  rw [parseArguments_of_classify classify_writing, writingKinds, interpret, if_pos (by rfl),
    Settings.give, if_neg (by decide)]
  rfl

theorem exits_writing :
    (run sampleHost sampleInput writingSettings sampleFiles).ending = .exit 0 := by
  have hresolves : writingSettings.Resolves sampleHost.nesting sampleFiles {} := by
    refine ⟨[], .absent rfl, fun name => ?_⟩
    cases name <;> rfl
  have hdecode : (decode {} (namedChunk [0x3D, 0x74])).1 = .ok sampleChunk := by decide +kernel
  have hread : chunkAt sampleHost.compiler sampleInput writingSettings sampleFiles =
      .ok (namedChunk [0x3D, 0x74]) := (chunkAt_eq_ok_iff rfl).mpr read_sampleFiles
  have hlayout : writingSettings.layout sampleHost.maxWidth = .ok (.indented 2) :=
    layout_eq_ok_iff.mpr ⟨2, rfl, by decide, rfl⟩
  have hwritable : sampleFiles.Writable (.ofText "tree.json") :=
    ⟨_, _, _, FileTree.ensureDirectories_run_nil rfl (by decide) _, rfl⟩
  exact (writes_of_writable rfl hresolves hread hdecode hlayout rfl hwritable).ending

theorem openTrace_sampleFiles (s : Settings) :
    (initialState s sampleFiles).openTrace Log.samplePath Log.Level.debug.weight =
      (.ok (), { initialState s sampleFiles with
        files := sampleFiles.put Log.sampleLocation (.file [])
        traces := [⟨Log.sampleLocation, 0, Log.Level.debug.weight⟩]
        threshold := Log.Level.debug.weight }) :=
  Log.openTrace_of_opened (FileTree.ensureDirectories_run_nil rfl (by decide) _) rfl _

theorem apart_sample : Apart sampleInput writingSettings sampleFiles
    (sampleFiles.put Log.sampleLocation (.file [])) Log.sampleLocation where
  input m content hlocate hnode := by
    cases hlocate
    exact ⟨by decide, rfl⟩
  config := nofun
  directories p names hout hencode hmem := by
    cases hout
    cases hencode
    cases hmem
  output m hm := by
    obtain ⟨p, names, hout, hencode, rfl⟩ := hm
    cases hout
    cases hencode
    exact ⟨by decide, fun hmade => nomatch hmade.2⟩

end LuaBytecode.CommandLine
