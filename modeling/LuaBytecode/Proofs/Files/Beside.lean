import LuaBytecode.Proofs.Files.Directories

/-!
# The same files beside an open trace file

A tree beside another one has a file of its own at one location, and directories that were made for
it. An operation on a path that stays clear of both does the same in either tree: it succeeds in
both or is refused in both, and the trees stay beside each other.
-/

namespace LuaBytecode.FileTree

/-- Two operations succeed with the same result, or the file system refuses both, or neither gets as
far for the same reason. -/
inductive SameOutcome {α : Type} : Except FileFault α → Except FileFault α → Prop
  | ok (a : α) : SameOutcome (.ok a) (.ok a)
  | refused (e e' : FileError) : SameOutcome (.error (.system e)) (.error (.system e'))
  | path (g : PathFault) : SameOutcome (.error (.path g)) (.error (.path g))

theorem SameOutcome.refl {α : Type} (r : Except FileFault α) : SameOutcome r r := by
  cases r with
  | ok a => exact .ok a
  | error f =>
    cases f with
    | system e => exact .refused e e
    | path g => exact .path g

theorem EndsAs.sameOutcome {r r' : Except FileFault Unit × FileTree} {w w' : Bool × FileTree}
    (h : EndsAs r w) (h' : EndsAs r' w') (hw : w'.1 = w.1) : SameOutcome r.1 r'.1 := by
  cases h with
  | reached =>
    cases h' with
    | reached => exact .ok ()
    | stopped => cases hw
  | stopped e =>
    cases h' with
    | reached => cases hw
    | stopped e' => exact .refused e e'

/-- The second tree is the first one but for a file at `l`, where the first has no directory, and
for some of the directories `made` on the way to it. -/
structure Beside (made : Location → Prop) (l : Location) (t u : FileTree) : Prop where
  file : ∃ content, u.node? l = some (.file content)
  plain : t.node? l ≠ some .directory
  others : ∀ m, m ≠ l → u.node? m = t.node? m ∨
    t.node? m = none ∧ u.node? m = some .directory ∧ made m

namespace Beside

variable {made : Location → Prop} {l m : Location} {t u : FileTree} {p : Path}

theorem directory (h : Beside made l t u) (hm : t.node? m = some .directory) :
    u.node? m = some .directory := by
  have hne : m ≠ l := by
    rintro rfl
    exact h.plain hm
  rcases h.others m hne with hsame | ⟨hnone, _⟩
  · exact hsame.trans hm
  · cases hm.symm.trans hnone

theorem file_iff (h : Beside made l t u) (hm : m ≠ l) {content : Bytes} :
    u.node? m = some (.file content) ↔ t.node? m = some (.file content) := by
  rcases h.others m hm with hsame | ⟨hnone, hdirectory, _⟩
  · rw [hsame]
  · rw [hnone, hdirectory]
    exact ⟨nofun, nofun⟩

theorem put (h : Beside made l t u) (hm : m ≠ l) (hinside : m.isOutside = false) (n : Node) :
    Beside made l (t.put m n) (u.put m n) where
  file := by
    obtain ⟨content, hcontent⟩ := h.file
    exact ⟨content, (node?_put_of_ne hm.symm n).trans hcontent⟩
  plain := by
    rw [node?_put_of_ne hm.symm]
    exact h.plain
  others m' hm' := by
    by_cases heq : m' = m
    · rw [heq, node?_put_self hinside, node?_put_self hinside]
      exact .inl rfl
    · rw [node?_put_of_ne heq, node?_put_of_ne heq]
      exact h.others m' hm'

/-- The first tree gets a directory that the second has already. -/
theorem catch_up (h : Beside made l t u) (hm : m ≠ l) (hnone : t.node? m = none)
    (hdirectory : u.node? m = some .directory) : Beside made l (t.put m .directory) u where
  file := h.file
  plain := by
    rw [node?_put_of_ne hm.symm]
    exact h.plain
  others m' hm' := by
    by_cases heq : m' = m
    · rw [heq, node?_put_self (isOutside_of_node?_eq_none hnone), hdirectory]
      exact .inl rfl
    · rw [node?_put_of_ne heq]
      exact h.others m' hm'

/-- A walk that does not come by the file of the second tree ends alike in both; if the first tree
has a file there too, it stops both. -/
theorem makeWay (h : Beside made l t u) (a : Location) (names : List Bytes)
    (hl : l ∈ a.way names → t.node? l ≠ none) :
    (u.makeWay a names).1 = (t.makeWay a names).1 ∧
      Beside made l (t.makeWay a names).2 (u.makeWay a names).2 := by
  induction names generalizing t u a with
  | nil => exact ⟨rfl, h⟩
  | cons name rest ih =>
    rw [FileTree.makeWay, FileTree.makeWay]
    by_cases hlength : maxNameLength < name.length
    · rw [if_pos hlength, if_pos hlength]
      exact ⟨rfl, h⟩
    rw [if_neg hlength, if_neg hlength]
    have hrest : l ∈ (a.step name).way rest → t.node? l ≠ none :=
      fun hmem => hl (List.mem_cons_of_mem _ hmem)
    by_cases hnext : a.step name = l
    · obtain ⟨content, hcontent⟩ := h.file
      have hfirst := hl (List.mem_cons.mpr (.inl hnext.symm))
      rw [hnext, hcontent]
      cases hnode : t.node? l with
      | none => exact absurd hnode hfirst
      | some n =>
        cases n with
        | file content' => exact ⟨rfl, h⟩
        | directory => exact absurd hnode h.plain
    · rcases h.others (a.step name) hnext with hsame | ⟨hnone, hdirectory, _⟩
      · rw [hsame]
        cases hnode : t.node? (a.step name) with
        | none =>
          refine ih (h.put hnext (isOutside_of_node?_eq_none hnode) .directory) _ ?_
          rw [node?_put_of_ne (Ne.symm hnext)]
          exact hrest
        | some n =>
          cases n with
          | file content => exact ⟨rfl, h⟩
          | directory => exact ih h _ hrest
      · rw [hnone, hdirectory]
        refine ih (h.catch_up hnext hnone hdirectory) _ ?_
        rw [node?_put_of_ne (Ne.symm hnext)]
        exact hrest

theorem ensureDirectories (h : Beside made l t u) (p : Path)
    (hl : ∀ names, p.encode = .ok names → l ∈ (Location.start p).way names → t.node? l ≠ none) :
    SameOutcome ((ensureDirectories p).run t).1 ((ensureDirectories p).run u).1 ∧
      Beside made l ((ensureDirectories p).run t).2 ((ensureDirectories p).run u).2 := by
  cases hencode : p.encode with
  | error g =>
    have hrefused : ∀ t : FileTree, (FileTree.ensureDirectories p).run t = (.error (.path g), t) :=
      fun t => ensureDirectories_run_of_locate (locate_eq_path_iff.mpr hencode) rfl
    rw [hrefused, hrefused]
    exact ⟨.path g, h⟩
  | ok names =>
    by_cases hlength : pathLength p names ≤ maxPathLength
    · obtain ⟨hfound, hbeside⟩ := h.makeWay (Location.start p) names (hl names hencode)
      have hends := ensureDirectories_endsAs hencode hlength t
      have hends' := ensureDirectories_endsAs hencode hlength u
      rw [hends.tree, hends'.tree]
      exact ⟨hends.sameOutcome hends' hfound, hbeside⟩
    · have hrefused : ∀ t : FileTree, (FileTree.ensureDirectories p).run t =
          (.error (.system ⟨.nameTooLong, p⟩), t) := fun t =>
        ensureDirectories_run_of_locate (locate_of_long hencode (Nat.lt_of_not_le hlength) t) rfl
      rw [hrefused, hrefused]
      exact ⟨.refused _ _, h⟩

theorem truncate (h : Beside made l t u) (hlocate : u.locate p = t.locate p)
    (hp : ∀ m, t.locate p = .ok m → m ≠ l ∧ ¬made m) :
    SameOutcome ((truncate p).run t).1 ((truncate p).run u).1 ∧
      Beside made l ((truncate p).run t).2 ((truncate p).run u).2 := by
  rw [truncate_run, truncate_run, hlocate]
  cases hend : t.locate p with
  | error f => exact ⟨.refl _, h⟩
  | ok m =>
    obtain ⟨hne, hnew⟩ := hp m hend
    have hsame : u.node? m = t.node? m := by
      rcases h.others m hne with hsame | ⟨_, _, hmade⟩
      · exact hsame
      · exact absurd hmade hnew
    simp only [hsame]
    by_cases hnode : t.node? m = some .directory
    · rw [hnode]
      exact ⟨.refl _, h⟩
    · have hinside := isOutside_of_node? hnode
      split
      · exact absurd ‹_› hnode
      · exact ⟨.ok m, h.put hne hinside _⟩

/-- What a path leads to is read alike if in the second tree it is a file of the first one, at the
place where the path leads there. -/
theorem read (h : Beside made l t u)
    (hp : ∀ m content, u.locate p = .ok m → u.node? m = some (.file content) →
      m ≠ l ∧ t.locate p = .ok m) : SameOutcome (t.read p) (u.read p) := by
  have hread : ∀ content, t.read p = .ok content ↔ u.read p = .ok content := by
    intro content
    rw [read_eq_ok_iff, read_eq_ok_iff]
    constructor
    · rintro ⟨m, hlocate, hnode⟩
      have hlocate' := locate_of_directories (fun m hm => h.directory hm) hlocate
      have hne : m ≠ l := by
        rintro rfl
        obtain ⟨content', hcontent'⟩ := h.file
        exact (hp m content' hlocate' hcontent').1 rfl
      exact ⟨m, hlocate', (h.file_iff hne).mpr hnode⟩
    · rintro ⟨m, hlocate, hnode⟩
      obtain ⟨hne, hlocate'⟩ := hp m content hlocate hnode
      exact ⟨m, hlocate', (h.file_iff hne).mp hnode⟩
  cases hencode : p.encode with
  | error g =>
    rw [read_eq_path_iff.mpr hencode, read_eq_path_iff.mpr hencode]
    exact .path g
  | ok names =>
    have hsystem : ∀ {t : FileTree} {f : FileFault}, t.read p = .error f → ∃ e, f = .system e := by
      intro t f hf
      cases f with
      | system e => exact ⟨e, rfl⟩
      | path g => cases hencode.symm.trans (read_eq_path_iff.mp hf)
    cases hfirst : t.read p with
    | ok content =>
      rw [(hread content).mp hfirst]
      exact .ok content
    | error f =>
      cases hsecond : u.read p with
      | ok content => cases hfirst.symm.trans ((hread content).mpr hsecond)
      | error f' =>
        obtain ⟨e, rfl⟩ := hsystem hfirst
        obtain ⟨e', rfl⟩ := hsystem hsecond
        exact .refused e e'

end Beside

end LuaBytecode.FileTree
