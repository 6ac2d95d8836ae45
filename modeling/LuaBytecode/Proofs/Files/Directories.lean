import LuaBytecode.Proofs.Files
import Mathlib.Data.List.Induction

/-!
# Making the directories on the way

To make a directory and those above it, the deepest is tried first and the ones above it only if
they are missing. The outcome is that of a walk down the names, which makes each directory that is
missing and stops at the first file in the way or name that is too long. So what was there stays,
and only directories are added.
-/

namespace LuaBytecode

/-- The locations that names lead through from a location, the last one included. -/
def Location.way (l : Location) : List Bytes → List Location
  | [] => []
  | name :: rest => l.step name :: (l.step name).way rest

namespace FileTree

variable {t t' : FileTree} {l : Location} {names : List Bytes}

/-- Goes down the names and makes each directory that is missing; whether the end is reached. -/
def makeWay (t : FileTree) (l : Location) : List Bytes → Bool × FileTree
  | [] => (true, t)
  | name :: rest =>
    if maxNameLength < name.length then (false, t)
    else
      match t.node? (l.step name) with
      | some .directory => t.makeWay (l.step name) rest
      | some (.file _) => (false, t)
      | none => (t.put (l.step name) .directory).makeWay (l.step name) rest

theorem isOutside_of_node?_eq_none (h : t.node? l = none) : l.isOutside = false :=
  isOutside_of_node? (by rw [h]; exact nofun)

theorem node?_start (t : FileTree) (p : Path) :
    t.node? (Location.start p) = some .directory := by
  have houtside : (Location.start p).isOutside = true := by
    unfold Location.start
    split <;> decide
  rw [node?, if_pos houtside]

/-- What is there stays, and what is added are directories on the way. -/
theorem node?_makeWay (t : FileTree) (l : Location) (names : List Bytes) (m : Location) :
    (t.makeWay l names).2.node? m = t.node? m ∨
      t.node? m = none ∧ (t.makeWay l names).2.node? m = some .directory ∧ m ∈ l.way names := by
  induction names generalizing t l with
  | nil => exact .inl rfl
  | cons name rest ih =>
    rw [makeWay]
    split
    · exact .inl rfl
    cases hnext : t.node? (l.step name) with
    | some n =>
      cases n with
      | file content => exact .inl rfl
      | directory =>
        rcases ih t (l.step name) with hsame | ⟨hnone, hmade, hmem⟩
        · exact .inl hsame
        · exact .inr ⟨hnone, hmade, List.mem_cons_of_mem _ hmem⟩
    | none =>
      have hinside := isOutside_of_node?_eq_none hnext
      by_cases hm : m = l.step name
      · subst hm
        have hput := node?_put_self (t := t) hinside .directory
        rcases ih (t.put (l.step name) .directory) (l.step name) with hsame | ⟨hnone, _⟩
        · exact .inr ⟨hnext, hsame.trans hput, List.mem_cons_self⟩
        · cases hput.symm.trans hnone
      · have hput := node?_put_of_ne (t := t) hm .directory
        rcases ih (t.put (l.step name) .directory) (l.step name) with hsame | ⟨hnone, hmade, hmem⟩
        · exact .inl (hsame.trans hput)
        · exact .inr ⟨hput.symm.trans hnone, hmade, List.mem_cons_of_mem _ hmem⟩

theorem node?_makeWay_of_eq_some {n : Node} (h : t.node? l = some n) (a : Location)
    (names : List Bytes) : (t.makeWay a names).2.node? l = some n := by
  rcases t.node?_makeWay a names l with hsame | ⟨hnone, _⟩
  · exact hsame.trans h
  · cases h.symm.trans hnone

theorem makeWay_append (t : FileTree) (l : Location) (xs ys : List Bytes) :
    t.makeWay l (xs ++ ys) =
      if (t.makeWay l xs).1 then (t.makeWay l xs).2.makeWay (xs.foldl Location.step l) ys
      else t.makeWay l xs := by
  induction xs generalizing t l with
  | nil => rfl
  | cons x xs ih =>
    rw [List.cons_append, makeWay, makeWay, List.foldl_cons]
    split
    · rfl
    cases t.node? (l.step x) with
    | none => exact ih _ _
    | some n =>
      cases n with
      | file content => rfl
      | directory => exact ih _ _

/-! ### The walk and what a path leads to -/

theorem follow_append (t : FileTree) (l : Location) (xs ys : List Bytes) :
    t.follow l (xs ++ ys) = t.follow l xs >>= fun reached => t.follow reached ys := by
  induction xs generalizing l with
  | nil => rfl
  | cons x xs ih =>
    rw [List.cons_append, follow, follow]
    cases t.node? l with
    | none => rfl
    | some n =>
      cases n with
      | file content => rfl
      | directory =>
        simp only
        split
        · rfl
        · exact ih _

theorem follow_eq_foldl {reached : Location} (h : t.follow l names = .ok reached) :
    reached = names.foldl Location.step l := by
  induction names generalizing l with
  | nil => exact (Except.ok.inj h).symm
  | cons name rest ih =>
    rw [follow] at h
    split at h
    · cases h
    · cases h
    · split at h
      · cases h
      · exact ih h

theorem follow_of_makeWay (hl : t.node? l = some .directory)
    (h : t.makeWay l names = (true, t')) : t'.follow l names = .ok (names.foldl Location.step l) ∧
      t'.node? (names.foldl Location.step l) = some .directory := by
  induction names generalizing t l with
  | nil =>
    cases h
    exact ⟨rfl, hl⟩
  | cons name rest ih =>
    have hkept : t'.node? l = some .directory := by
      have hkept := node?_makeWay_of_eq_some hl l (name :: rest)
      rwa [h] at hkept
    rw [makeWay] at h
    split at h
    · cases h
    rename_i hlength
    rw [follow, hkept]
    simp only [if_neg hlength, List.foldl_cons]
    cases hnext : t.node? (l.step name) with
    | none =>
      rw [hnext] at h
      exact ih (node?_put_self (isOutside_of_node?_eq_none hnext) _) h
    | some n =>
      rw [hnext] at h
      cases n with
      | file content => cases h
      | directory => exact ih hnext h

theorem makeWay_of_follow_ok {reached : Location} (h : t.follow l names = .ok reached)
    (hnames : names ≠ []) : t.makeWay l names =
      match t.node? reached with
      | some .directory => (true, t)
      | some (.file _) => (false, t)
      | none => (true, t.put reached .directory) := by
  induction names generalizing l with
  | nil => exact absurd rfl hnames
  | cons name rest ih =>
    rw [follow] at h
    split at h
    · cases h
    · cases h
    split at h
    · cases h
    rename_i hlength
    rw [makeWay, if_neg hlength]
    cases rest with
    | nil =>
      cases h
      rfl
    | cons next rest =>
      have hnext : t.node? (l.step name) = some .directory := by
        rw [follow] at h
        split at h
        · cases h
        · cases h
        · assumption
      rw [hnext]
      exact ih h (List.cons_ne_nil next rest)

theorem makeWay_of_follow_error {kind : FileErrorKind} (h : t.follow l names = .error kind)
    (hl : t.node? l = some .directory) (hkind : kind ≠ .notFound) :
    t.makeWay l names = (false, t) := by
  induction names generalizing l with
  | nil => cases h
  | cons name rest ih =>
    rw [follow, hl] at h
    rw [makeWay]
    split
    · rfl
    rename_i hlength
    simp only [if_neg hlength] at h
    cases hnext : t.node? (l.step name) with
    | none =>
      cases rest with
      | nil => cases h
      | cons next rest =>
        rw [follow, hnext] at h
        cases h
        exact absurd rfl hkind
    | some n =>
      cases n with
      | file content => rfl
      | directory => exact ih h hnext

/-! ### Making the directories of a path -/

section

variable {p : Path}

theorem locate_eq_follow (hencode : p.encode = .ok names)
    (hlength : pathLength p names ≤ maxPathLength) (t : FileTree) :
    t.locate p = (t.follow (Location.start p) names).mapError fun kind => .system ⟨kind, p⟩ := by
  rw [locate, hencode]
  exact if_neg (Nat.not_lt.mpr hlength)

theorem mapM_dropLast {α β : Type} {f : α → Option β} {xs : List α} {ys : List β}
    (h : xs.mapM f = some ys) : xs.dropLast.mapM f = some ys.dropLast := by
  rcases List.eq_nil_or_concat xs with rfl | ⟨init, last, rfl⟩
  · cases h
    rfl
  · rw [List.concat_eq_append, List.mapM_append, Option.bind_eq_bind, Option.bind_eq_some_iff] at h
    obtain ⟨before, hbefore, h⟩ := h
    obtain ⟨after, hafter, ⟨⟩⟩ := Option.bind_eq_some_iff.mp h
    obtain ⟨y, _, ⟨⟩⟩ := Option.bind_eq_some_iff.mp hafter
    rw [List.concat_eq_append, List.dropLast_concat, hbefore]
    exact congrArg some List.dropLast_concat.symm

theorem encode_parent (hencode : p.encode = .ok names) : p.parent.encode = .ok names.dropLast := by
  unfold Path.encode at hencode ⊢
  cases hnames : p.names.mapM Text.restore? with
  | none =>
    rw [hnames] at hencode
    cases hencode
  | some restored =>
    simp only [hnames] at hencode
    split at hencode
    · cases hencode
    · rename_i hplain
      cases hencode
      have hparent : p.parent.names.mapM Text.restore? = some names.dropLast :=
        mapM_dropLast hnames
      have hplain' : ¬names.dropLast.any (·.contains 0) = true := by
        intro hany
        obtain ⟨name, hmem, hname⟩ := List.any_eq_true.mp hany
        exact hplain (List.any_eq_true.mpr ⟨name, (List.dropLast_sublist names).subset hmem, hname⟩)
      simp only [hparent]
      rw [if_neg hplain']

theorem pathLength_parent_le (hlength : pathLength p names ≤ maxPathLength) :
    pathLength p.parent names.dropLast ≤ maxPathLength := by
  have hroot : p.parent.root = p.root := rfl
  unfold pathLength at hlength ⊢
  rw [hroot]
  rcases List.eq_nil_or_concat names with rfl | ⟨init, last, rfl⟩
  · exact hlength
  · simp only [List.concat_eq_append, List.flatten_append, List.length_append,
      List.dropLast_concat] at hlength ⊢
    omega

theorem makeDirectory_run (hencode : p.encode = .ok names)
    (hlength : pathLength p names ≤ maxPathLength) (t : FileTree) :
    (makeDirectory p).run t =
      match t.follow (Location.start p) names with
      | .error kind => (.error (.system ⟨kind, p⟩), t)
      | .ok l =>
        match t.node? l with
        | some _ => (.error (.system ⟨.exists, p⟩), t)
        | none => (.ok (), t.put l .directory) := by
  unfold makeDirectory
  rw [Action.run_get_bind, locate_eq_follow hencode hlength]
  cases t.follow (Location.start p) names with
  | error kind => exact Action.run_bind_of_error (Action.run_liftM _)
  | ok l =>
    rw [Action.mapError_ok, Action.run_bind_of_ok (Action.run_liftM _)]
    simp only
    cases t.node? l <;> rfl

theorem isDirectory_eq (hencode : p.encode = .ok names)
    (hlength : pathLength p names ≤ maxPathLength) (t : FileTree) :
    t.isDirectory p =
      match t.follow (Location.start p) names with
      | .error _ => false
      | .ok l => t.node? l = some .directory := by
  rw [isDirectory, locate_eq_follow hencode hlength]
  cases t.follow (Location.start p) names <;> rfl

theorem ensureDirectory_run_of_error {f : FileFault} (h : (makeDirectory p).run t = (.error f, t)) :
    (ensureDirectory p).run t =
      if f.isNotFound || !t.isDirectory p then (.error f, t) else (.ok (), t) := by
  rw [ensureDirectory, Action.run_tryCatch, h]
  simp only
  rw [Action.run_get_bind]
  split <;> rfl

theorem ensureDirectory_run (hencode : p.encode = .ok names)
    (hlength : pathLength p names ≤ maxPathLength) (t : FileTree) :
    (ensureDirectory p).run t =
      match t.follow (Location.start p) names with
      | .error kind => (.error (.system ⟨kind, p⟩), t)
      | .ok l =>
        match t.node? l with
        | some .directory => (.ok (), t)
        | some (.file _) => (.error (.system ⟨.exists, p⟩), t)
        | none => (.ok (), t.put l .directory) := by
  have hmake := makeDirectory_run hencode hlength t
  have hdirectory := isDirectory_eq hencode hlength t
  cases hfollow : t.follow (Location.start p) names with
  | error kind =>
    rw [hfollow] at hmake hdirectory
    rw [ensureDirectory_run_of_error hmake, hdirectory, Bool.not_false, Bool.or_true, if_pos rfl]
  | ok l =>
    rw [hfollow] at hmake hdirectory
    cases hnode : t.node? l with
    | none =>
      simp only [hnode] at hmake ⊢
      rw [ensureDirectory, Action.run_tryCatch, hmake]
    | some n =>
      simp only [hnode] at hmake hdirectory ⊢
      rw [ensureDirectory_run_of_error hmake, hdirectory]
      cases n <;> rfl

theorem ensureDirectories_run_succ (hnames : p.names ≠ []) (t : FileTree) :
    (ensureDirectories p).run t =
      match (ensureDirectory p).run t with
      | (.ok (), t') => (.ok (), t')
      | (.error f, t') =>
        if f.isNotFound then (ensureDirectories p.parent >>= fun _ => ensureDirectory p).run t'
        else (.error f, t') := by
  rw [ensureDirectories, Action.run_tryCatch]
  obtain ⟨r, t', h⟩ : ∃ r t', (ensureDirectory p).run t = (r, t') := ⟨_, _, rfl⟩
  rw [h]
  cases r with
  | ok u => rfl
  | error f =>
    cases hfound : f.isNotFound with
    | true => simp only [hfound, hnames, ne_eq, not_false_eq_true, and_self, dite_true, if_true]
    | false =>
      simp only [hfound, Bool.false_eq_true, false_and, dite_false, if_false]
      rfl

theorem names_ne_nil (hencode : p.encode = .ok names) (hnames : names ≠ []) : p.names ≠ [] := by
  intro hempty
  rw [Path.encode, hempty] at hencode
  cases hencode
  exact hnames rfl

/-- What was done comes out as a walk did: it reached its end, or the file system refused it. -/
inductive EndsAs : Except FileFault Unit × FileTree → Bool × FileTree → Prop
  | reached (t : FileTree) : EndsAs (.ok (), t) (true, t)
  | stopped (e : FileError) (t : FileTree) : EndsAs (.error (.system e), t) (false, t)

theorem EndsAs.of_stopped {r : Except FileFault Unit × FileTree} (h : EndsAs r (false, t)) :
    ∃ e, r = (.error (.system e), t) := by
  cases h with
  | stopped e => exact ⟨e, rfl⟩

theorem ensureDirectories_endsAs_of_reached {reached : Location} (hencode : p.encode = .ok names)
    (hlength : pathLength p names ≤ maxPathLength) (hnames : names ≠ [])
    (hfollow : t.follow (Location.start p) names = .ok reached) :
    EndsAs ((ensureDirectories p).run t) (t.makeWay (Location.start p) names) := by
  have hrun := ensureDirectory_run hencode hlength t
  rw [ensureDirectories_run_succ (names_ne_nil hencode hnames),
    makeWay_of_follow_ok hfollow hnames]
  simp only [hfollow] at hrun
  cases hnode : t.node? reached with
  | none =>
    simp only [hnode] at hrun ⊢
    rw [hrun]
    exact .reached _
  | some n =>
    cases n with
    | file content =>
      simp only [hnode] at hrun ⊢
      rw [hrun]
      exact .stopped _ _
    | directory =>
      simp only [hnode] at hrun ⊢
      rw [hrun]
      exact .reached _

/-- After the directories above it a directory is made as the last step of a walk. -/
theorem ensureDirectory_endsAs {init : List Bytes} {name : Bytes}
    (hencode : p.encode = .ok (init ++ [name]))
    (hlength : pathLength p (init ++ [name]) ≤ maxPathLength)
    (hway : t.makeWay (Location.start p) init = (true, t')) :
    EndsAs ((ensureDirectory p).run t') (t'.makeWay (init.foldl Location.step (.start p)) [name]) := by
  obtain ⟨hfollow, hdirectory⟩ := follow_of_makeWay (node?_start t p) hway
  rw [ensureDirectory_run hencode hlength, follow_append, hfollow]
  simp only [bind, Except.bind, follow, hdirectory, makeWay]
  by_cases hname : maxNameLength < name.length
  · rw [if_pos hname, if_pos hname]
    exact .stopped _ _
  · rw [if_neg hname, if_neg hname]
    simp only
    cases t'.node? ((init.foldl Location.step (Location.start p)).step name) with
    | none => exact .reached _
    | some n =>
      cases n with
      | file content => exact .stopped _ _
      | directory => exact .reached _

theorem ensureDirectories_run_nil (hencode : p.encode = .ok [])
    (hlength : pathLength p [] ≤ maxPathLength) (t : FileTree) :
    (ensureDirectories p).run t = (.ok (), t) := by
  rw [ensureDirectories, Action.run_tryCatch, ensureDirectory_run hencode hlength, follow]
  simp only [node?_start]

/-- The directories of a path are made just as the walk makes them. -/
theorem ensureDirectories_endsAs (hencode : p.encode = .ok names)
    (hlength : pathLength p names ≤ maxPathLength) (t : FileTree) :
    EndsAs ((ensureDirectories p).run t) (t.makeWay (Location.start p) names) := by
  induction names using List.reverseRecOn generalizing p t with
  | nil =>
    rw [ensureDirectories_run_nil hencode hlength]
    exact .reached t
  | append_singleton init name ih =>
    have hnames : init ++ [name] ≠ [] := List.append_ne_nil_of_right_ne_nil _ nofun
    cases hfollow : t.follow (Location.start p) (init ++ [name]) with
    | ok reached => exact ensureDirectories_endsAs_of_reached hencode hlength hnames hfollow
    | error kind =>
      rw [ensureDirectories_run_succ (names_ne_nil hencode hnames),
        ensureDirectory_run hencode hlength]
      simp only [hfollow]
      by_cases hkind : kind = .notFound
      · -- What is missing is above the last name, so the parent is made first.
        have hparent := encode_parent hencode
        have hlength' := pathLength_parent_le hlength
        rw [List.dropLast_concat] at hparent hlength'
        have hends : EndsAs ((ensureDirectories p.parent).run t)
          (t.makeWay (Location.start p) init) := ih hparent hlength' t
        have hmissing : (FileFault.system ⟨kind, p⟩).isNotFound = true := decide_eq_true hkind
        rw [hmissing, if_pos rfl, makeWay_append]
        obtain ⟨r, t', hrun⟩ : ∃ r t', (ensureDirectories p.parent).run t = (r, t') :=
          ⟨_, _, rfl⟩
        rw [hrun] at hends
        cases hway : t.makeWay (Location.start p) init with
        | mk found t'' =>
          rw [hway] at hends
          cases hends with
          | stopped e =>
            rw [Action.run_bind_of_error hrun]
            exact .stopped e _
          | reached =>
            rw [Action.run_bind_of_ok hrun]
            exact ensureDirectory_endsAs hencode hlength hway
      · rw [makeWay_of_follow_error hfollow (node?_start t p) hkind]
        have hother : (FileFault.system ⟨kind, p⟩).isNotFound = false := decide_eq_false hkind
        rw [hother]
        exact .stopped _ _

theorem ensureDirectories_run_of_locate {f : FileFault} (hlocate : t.locate p = .error f)
    (hfound : f.isNotFound = false) : (ensureDirectories p).run t = (.error f, t) := by
  have hmake : (makeDirectory p).run t = (.error f, t) := by
    unfold makeDirectory
    rw [Action.run_get_bind, hlocate]
    exact Action.run_bind_of_error (Action.run_liftM _)
  have hensure : (ensureDirectory p).run t = (.error f, t) := by
    rw [ensureDirectory_run_of_error hmake, isDirectory, hlocate, Bool.not_false, Bool.or_true,
      if_pos rfl]
  rw [ensureDirectories, Action.run_tryCatch, hensure]
  simp only [hfound, Bool.false_eq_true, false_and, dite_false]
  rfl

theorem locate_of_long (hencode : p.encode = .ok names)
    (hlong : maxPathLength < pathLength p names) (t : FileTree) :
    t.locate p = .error (.system ⟨.nameTooLong, p⟩) := by
  rw [locate, hencode]
  exact if_pos hlong

/-- The directories are made by a walk, unless the path has no encoding or is too long, which is
refused at once. -/
theorem ensureDirectories_cases (p : Path) (t : FileTree) :
    (∃ names, p.encode = .ok names ∧ pathLength p names ≤ maxPathLength ∧
      EndsAs ((ensureDirectories p).run t) (t.makeWay (Location.start p) names)) ∨
    (∃ names e, p.encode = .ok names ∧ maxPathLength < pathLength p names ∧
      (ensureDirectories p).run t = (.error (.system e), t)) ∨
    ∃ g, p.encode = .error g ∧ (ensureDirectories p).run t = (.error (.path g), t) := by
  cases hencode : p.encode with
  | error g =>
    exact .inr (.inr ⟨g, rfl, ensureDirectories_run_of_locate (locate_eq_path_iff.mpr hencode) rfl⟩)
  | ok names =>
    by_cases hlength : pathLength p names ≤ maxPathLength
    · exact .inl ⟨names, rfl, hlength, ensureDirectories_endsAs hencode hlength t⟩
    · have hlong := Nat.lt_of_not_le hlength
      exact .inr (.inl ⟨names, _, rfl, hlong,
        ensureDirectories_run_of_locate (locate_of_long hencode hlong t) rfl⟩)

/-- Once the directories of a path have been made it leads to the last of them. -/
theorem follow_of_ensureDirectories (hencode : p.encode = .ok names)
    (hlength : pathLength p names ≤ maxPathLength)
    (hmade : (ensureDirectories p).run t = (.ok (), t')) :
    t'.follow (Location.start p) names = .ok (names.foldl Location.step (Location.start p)) ∧
      t'.node? (names.foldl Location.step (Location.start p)) = some .directory := by
  have hends := ensureDirectories_endsAs hencode hlength t
  rw [hmade] at hends
  cases hway : t.makeWay (Location.start p) names with
  | mk found tree =>
    rw [hway] at hends
    cases hends
    exact follow_of_makeWay (node?_start t p) hway

/-- Past a directory only the length of the last name can still stand in the way. -/
theorem follow_append_singleton {d : Location} {init : List Bytes} {name : Bytes}
    (hinit : t.follow l init = .ok d) (hdirectory : t.node? d = some .directory) :
    t.follow l (init ++ [name]) =
      if maxNameLength < name.length then .error .nameTooLong else .ok (d.step name) := by
  rw [follow_append, hinit]
  simp only [bind, Except.bind, follow, hdirectory]

/-- Where a path leads once the directories above it have been made does not depend on the tree. -/
theorem locate_of_made {u u' : FileTree} (ht : (ensureDirectories p.parent).run t = (.ok (), t'))
    (hu : (ensureDirectories p.parent).run u = (.ok (), u')) : u'.locate p = t'.locate p := by
  cases hencode : p.encode with
  | error g => rw [locate_eq_path_iff.mpr hencode, locate_eq_path_iff.mpr hencode]
  | ok names =>
    by_cases hlength : pathLength p names ≤ maxPathLength
    · rw [locate_eq_follow hencode hlength, locate_eq_follow hencode hlength]
      have hparent := encode_parent hencode
      have hlength' := pathLength_parent_le hlength
      obtain ⟨hfollow, hdirectory⟩ := follow_of_ensureDirectories hparent hlength' ht
      obtain ⟨hfollow', hdirectory'⟩ := follow_of_ensureDirectories hparent hlength' hu
      rcases List.eq_nil_or_concat names with rfl | ⟨init, name, rfl⟩
      · rfl
      · rw [List.concat_eq_append, List.dropLast_concat] at hfollow hdirectory hfollow' hdirectory'
        have hstart : Location.start p.parent = Location.start p := rfl
        rw [hstart] at hfollow hfollow'
        rw [List.concat_eq_append, follow_append_singleton hfollow hdirectory,
          follow_append_singleton hfollow' hdirectory']
    · have hlong := Nat.lt_of_not_le hlength
      rw [locate_of_long hencode hlong, locate_of_long hencode hlong]

theorem exists_of_locate (h : t.locate p = .ok l) :
    ∃ names, p.encode = .ok names ∧ l = names.foldl Location.step (Location.start p) := by
  cases hencode : p.encode with
  | error g => cases h.symm.trans (locate_eq_path_iff.mpr hencode)
  | ok names =>
    refine ⟨names, rfl, ?_⟩
    by_cases hlength : pathLength p names ≤ maxPathLength
    · rw [locate_eq_follow hencode hlength, Action.mapError_eq_ok_iff] at h
      exact follow_eq_foldl h
    · cases h.symm.trans (locate_of_long hencode (Nat.lt_of_not_le hlength) t)

end

/-- All that has happened is that directories were made where nothing was. -/
def Grown (t t' : FileTree) : Prop :=
  ∀ l, t'.node? l = t.node? l ∨ t.node? l = none ∧ t'.node? l = some .directory

theorem EndsAs.tree {r : Except FileFault Unit × FileTree} {w : Bool × FileTree} (h : EndsAs r w) :
    r.2 = w.2 := by
  cases h <;> rfl

theorem ensureDirectories_grown (p : Path) (t : FileTree) :
    t.Grown ((ensureDirectories p).run t).2 := by
  rcases ensureDirectories_cases p t with ⟨names, _, _, hends⟩ | ⟨_, _, _, _, hrun⟩ | ⟨_, _, hrun⟩
  · rw [hends.tree]
    intro l
    rcases t.node?_makeWay (Location.start p) names l with hsame | ⟨hnone, hmade, _⟩
    · exact .inl hsame
    · exact .inr ⟨hnone, hmade⟩
  · rw [hrun]
    exact fun _ => .inl rfl
  · rw [hrun]
    exact fun _ => .inl rfl

theorem Grown.directory (h : t.Grown t') (hl : t.node? l = some .directory) :
    t'.node? l = some .directory := by
  rcases h l with hsame | ⟨hnone, _⟩
  · exact hsame.trans hl
  · cases hl.symm.trans hnone

theorem Grown.file_iff (h : t.Grown t') {content : Bytes} :
    t'.node? l = some (.file content) ↔ t.node? l = some (.file content) := by
  rcases h l with hsame | ⟨hnone, hmade⟩
  · rw [hsame]
  · rw [hnone, hmade]
    exact ⟨nofun, nofun⟩

end FileTree

end LuaBytecode
