import LuaBytecode.Files.Tree
import LuaBytecode.Proofs.Action

/-!
# What is read back from a tree of files

What is put at a location is found there, and what is elsewhere stays as it is. A location that is
no directory is on the way to no other, so that every path leads where it led before.
-/

namespace LuaBytecode.FileTree

variable {t : FileTree} {l : Location}

theorem isOutside_of_node? (h : t.node? l ≠ some .directory) : l.isOutside = false := by
  rw [Bool.eq_false_iff]
  intro houtside
  rw [node?, if_pos houtside] at h
  exact h rfl

theorem find?_replaced (entries : List (Location × Node)) (n : Node) (l' : Location) :
    (entries.map fun entry => if entry.1 = l then (l, n) else entry).find? (·.1 = l') =
      (entries.find? (·.1 = l')).map fun entry => if entry.1 = l then (l, n) else entry := by
  have hname : ∀ entry : Location × Node, (if entry.1 = l then (l, n) else entry).1 = entry.1 := by
    intro entry
    split
    · exact (‹entry.1 = l›).symm
    · rfl
  rw [List.find?_map]
  simp only [Function.comp_def, hname]

theorem node?_put_self (h : l.isOutside = false) (n : Node) : (t.put l n).node? l = some n := by
  rw [node?, h, if_neg Bool.false_ne_true]
  by_cases hany : t.entries.any (·.1 = l) = true
  · rw [put, if_pos hany, find?_replaced]
    obtain ⟨entry, hfound⟩ := Option.isSome_iff_exists.mp (List.find?_isSome.mpr
      (List.any_eq_true.mp hany))
    have hname := List.find?_some hfound
    rw [decide_eq_true_eq] at hname
    rw [hfound, Option.map_some, if_pos hname, Option.map_some]
  · have hnone : t.entries.find? (·.1 = l) = none := by
      rw [List.find?_eq_none]
      intro entry hmem hname
      exact hany (List.any_eq_true.mpr ⟨entry, hmem, hname⟩)
    rw [put, if_neg hany, List.find?_append, hnone]
    simp

theorem node?_put_of_ne {l' : Location} (h : l' ≠ l) (n : Node) :
    (t.put l n).node? l' = t.node? l' := by
  unfold node?
  by_cases houtside : l'.isOutside = true
  · rw [if_pos houtside, if_pos houtside]
  rw [if_neg houtside, if_neg houtside]
  by_cases hany : t.entries.any (·.1 = l) = true
  · rw [put, if_pos hany, find?_replaced]
    cases hfound : t.entries.find? (·.1 = l') with
    | none => rfl
    | some entry =>
      have hname := List.find?_some hfound
      rw [decide_eq_true_eq] at hname
      have hother : ¬entry.1 = l := fun heq => h (hname.symm.trans heq)
      rw [Option.map_some, if_neg hother]
  · have hother : [(l, n)].find? (·.1 = l') = none := by
      simp [h.symm]
    rw [put, if_neg hany, List.find?_append, hother, Option.or_none]

/-- Where all directories are directories too, a path leads to the same location. -/
theorem follow_of_directories {t' : FileTree}
    (h : ∀ m, t.node? m = some .directory → t'.node? m = some .directory) {names : List Bytes}
    {start reached : Location} (hfollow : t.follow start names = .ok reached) :
    t'.follow start names = .ok reached := by
  induction names generalizing start with
  | nil => exact hfollow
  | cons name rest ih =>
    rw [follow] at hfollow ⊢
    split at hfollow
    · cases hfollow
    · cases hfollow
    · rename_i hstart
      rw [h start hstart]
      simp only
      split at hfollow
      · cases hfollow
      · rename_i hlength
        rw [if_neg hlength]
        exact ih hfollow

theorem locate_of_directories {t' : FileTree}
    (h : ∀ m, t.node? m = some .directory → t'.node? m = some .directory) {p : Path}
    {reached : Location} (hlocate : t.locate p = .ok reached) : t'.locate p = .ok reached := by
  unfold locate at hlocate ⊢
  cases hnames : p.encode with
  | error f =>
    rw [hnames] at hlocate
    cases hlocate
  | ok names =>
    rw [hnames] at hlocate
    simp only [Action.mapError_ok, bind, Except.bind] at hlocate ⊢
    split at hlocate
    · cases hlocate
    · rename_i hlength
      rw [if_neg hlength]
      cases hfollow : t.follow (Location.start p) names with
      | error kind =>
        rw [hfollow] at hlocate
        cases hlocate
      | ok l' =>
        rw [hfollow] at hlocate
        rw [follow_of_directories h hfollow]
        exact hlocate

theorem locate_put (h : t.node? l ≠ some .directory) (n : Node) {p : Path} {reached : Location}
    (hlocate : t.locate p = .ok reached) : (t.put l n).locate p = .ok reached := by
  refine locate_of_directories (fun m hm => ?_) hlocate
  have hne : m ≠ l := by
    rintro rfl
    exact h hm
  rw [node?_put_of_ne hne, hm]

theorem truncate_run (p : Path) (t : FileTree) : (truncate p).run t =
    match t.locate p with
    | .error f => (.error f, t)
    | .ok l =>
      match t.node? l with
      | some .directory => (.error (.system ⟨.isDirectory, p⟩), t)
      | _ => (.ok l, t.put l (.file [])) := by
  unfold truncate
  rw [Action.run_get_bind]
  cases t.locate p with
  | error f => exact Action.run_bind_of_error (Action.run_liftM _)
  | ok l =>
    rw [Action.run_bind_of_ok (Action.run_liftM _)]
    simp only
    cases t.node? l with
    | none => rfl
    | some n => cases n <;> rfl

theorem truncate_run_eq_ok_iff {p : Path} {t' : FileTree} :
    (truncate p).run t = (.ok l, t') ↔
      t.locate p = .ok l ∧ t.node? l ≠ some .directory ∧ t.put l (.file []) = t' := by
  rw [truncate_run]
  cases t.locate p with
  | error f => exact ⟨nofun, nofun⟩
  | ok l' =>
    simp only [Except.ok.injEq]
    constructor
    · intro h
      split at h
      · cases h
      · rename_i hnode
        cases h
        exact ⟨rfl, hnode, rfl⟩
    · rintro ⟨rfl, hnode, rfl⟩
      split
      · exact absurd ‹_› hnode
      · rfl

theorem truncate_run_of_error {p : Path} {f : FileFault} {t' : FileTree}
    (h : (truncate p).run t = (.error f, t')) : t' = t := by
  rw [truncate_run] at h
  split at h
  · cases h
    rfl
  · split at h <;> cases h
    rfl

theorem writeAt_zero_of_empty (h : t.node? l = some (.file [])) (data : Bytes) :
    t.writeAt l 0 data = t.put l (.file data) := by
  unfold writeAt
  rw [h]
  simp

theorem read_eq_ok_iff {p : Path} {content : Bytes} :
    t.read p = .ok content ↔ ∃ l, t.locate p = .ok l ∧ t.node? l = some (.file content) := by
  rw [read, Action.bind_eq_ok_iff]
  refine exists_congr fun l => and_congr_right fun _ => ?_
  cases t.node? l with
  | none => exact ⟨nofun, nofun⟩
  | some n => cases n <;> simp

theorem locate_eq_path_iff {p : Path} {g : PathFault} :
    t.locate p = .error (.path g) ↔ p.encode = .error g := by
  unfold locate
  cases hencode : p.encode with
  | error g' => simp [Action.mapError_error, bind, Except.bind]
  | ok names =>
    simp only [Action.mapError_ok, bind, Except.bind]
    split
    · simp [throw, throwThe, MonadExceptOf.throw]
    · cases t.follow (Location.start p) names <;>
        simp [Action.mapError_ok, Action.mapError_error]

theorem read_eq_path_iff {p : Path} {g : PathFault} :
    t.read p = .error (.path g) ↔ p.encode = .error g := by
  rw [← locate_eq_path_iff (t := t), read, Action.bind_eq_error_iff]
  refine or_iff_left ?_
  rintro ⟨l, _, hnode⟩
  split at hnode <;> cases hnode

/-- What is written to an emptied file is read back. -/
theorem read_writeAt_of_truncate {p : Path} {t' : FileTree}
    (h : (truncate p).run t = (.ok l, t')) (data : Bytes) :
    (t'.writeAt l 0 data).read p = .ok data := by
  obtain ⟨hlocate, hnode, rfl⟩ := truncate_run_eq_ok_iff.mp h
  have hinside := isOutside_of_node? hnode
  have hempty := node?_put_self (t := t) hinside (.file [])
  have hfile : (t.put l (.file [])).node? l ≠ some .directory := by
    rw [hempty]
    exact nofun
  rw [writeAt_zero_of_empty hempty]
  exact read_eq_ok_iff.mpr ⟨l, locate_put hfile _ (locate_put hnode _ hlocate),
    node?_put_self hinside _⟩

end LuaBytecode.FileTree
