import LuaBytecode.Proofs.Grammar.Recognition
import LuaBytecode.Proofs.Scan.Inner

/-!
# What a decoder completes

A decoder that is to read a prototype may read it whole, and it may complete others nested in it,
also if it fails in the end: those that come before the failure. The notes it takes are exactly the
reports of what it completes. They are in the order in which the encodings end, and no two end at
one offset.
-/

namespace LuaBytecode

open Scan

/-- What is noted of a prototype that starts at an offset, at a depth of nesting. -/
def Prototype.report (p : Prototype) (start : Int) (depth : Nat) : Note :=
  .prototype p.info.source start depth p.info.instructions.length p.info.constants.length
    p.children.length

/-- A prototype that was read whole: from where to where, and at which depth. -/
structure Completion where
  prototype : Prototype
  start : Int
  depth : Nat
  stop : Int

def Completion.report (x : Completion) : Note := x.prototype.report x.start x.depth

namespace Decoder

variable (d : Decoder)

/-! ### The parts of a prototype -/

theorem inner_readCount (field : Text) (recordSize : Nat) :
    (d.readCount field recordSize).Inner := by
  refine .bind .position fun start => .bind (inner_readU32 _) fun count => .bind ?_ fun _ => .pure _
  refine .bind .remaining fun left => ?_
  split
  · exact .failAt _ (by simp [DecodeError.kind])
  · exact .pure ()

theorem inner_readRecords {α : Type} {record : Scan α} (h : record.Inner) (field : Text)
    (recordSize : Nat) : (d.readRecords field recordSize record).Inner :=
  .bind (d.inner_readCount field recordSize) fun count => h.times count

theorem inner_readInfo : d.readInfo.Inner := by
  have hinstructions : d.readInstructions.Inner := by
    refine .bind (d.inner_readCount _ _) fun count => .bind (inner_readBytes _ _) fun block =>
      .bind (.liftResult fun e h => ?_) fun _ => .pure _
    unfold Bytes.words at h
    split at h <;> cases h
  have hconstants : d.readConstants.Inner := d.inner_readRecords (inner_readConstant _ _) _ _
  exact .bind (inner_readString _ _ _) fun _ => .bind (inner_readU32 _) fun _ =>
    .bind (inner_readU32 _) fun _ => .bind (inner_readU8 _) fun _ => .bind (inner_readU8 _) fun _ =>
    .bind (inner_readU8 _) fun _ => .bind (inner_readU8 _) fun _ => .bind hinstructions fun _ =>
    .bind hconstants fun _ => .pure _

theorem inner_skipDebug : d.skipDebug.Inner := by
  have hlines : d.skipLines.Inner := .bind (d.inner_readCount _ _) fun _ => inner_skip _ _
  have hlocal : d.skipLocal.Inner := .bind (inner_skipString _ _) fun _ => inner_skip _ _
  have hname : d.skipUpvalueName.Inner := inner_skipString _ _
  exact .bind hlines fun _ => .bind (d.inner_readRecords hlocal _ _) fun _ =>
    .bind (d.inner_readRecords hname _ _) fun _ => .pure _

/-- What is read of a prototype before those nested in it: its own fields, and how many are nested
in it. -/
def readHead : Scan (FunctionInfo × Nat) := do
  let info ← d.readInfo
  let count ← d.readCount "prototype count" (d.width.bytes + prototypeSize)
  return (info, count)

/-- What follows the prototypes nested in one. -/
def readTail (start : Int) (depth : Nat) (info : FunctionInfo) (children : List Prototype) :
    Scan Prototype := do
  d.skipDebug
  takeNote ((Prototype.node info children).report start depth)
  return .node info children

theorem readPrototype_succ (levels depth : Nat) :
    d.readPrototype (levels + 1) depth = position >>= fun start => d.readHead >>= fun head =>
      times head.2 (d.readPrototype levels (depth + 1)) >>= d.readTail start depth head.1 := by
  simp only [readPrototype, readRecords, readHead, bind_assoc, pure_bind]
  rfl

theorem inner_readHead : d.readHead.Inner :=
  .bind d.inner_readInfo fun _ => .bind (d.inner_readCount _ _) fun _ => .pure _

theorem advances_readCount (field : Text) (recordSize : Nat) :
    (d.readCount field recordSize).Advances := by
  refine stationary_position.advances.bind fun start =>
    (recognizes_readCount (some field)).advances.bind fun count =>
      .bind (fun data offset _ next hinside haccepts => ?_) fun _ =>
        (recognizes_pure count).advances
  obtain ⟨before, after, rfl, rfl⟩ := hinside.exists_append
  rw [Accepts, checkCount_append] at haccepts
  split at haccepts
  · cases haccepts.1
  · obtain rfl := haccepts.2
    exact ⟨Int.le_refl _, hinside⟩

theorem advances_readHead : d.readHead.Advances :=
  d.recognizes_readInfo.advances.bind fun _ => (d.advances_readCount _ _).bind fun _ =>
    (recognizes_pure _).advances

theorem skipDebug_bounds {data : Bytes} {start next : Int} (hinside : Inside data start)
    (h : d.skipDebug.Accepts data start () next) : start + 12 ≤ next := by
  refine (d.recognizes_skipDebug.bounds 12 ?_ hinside h).1
  intro word _ hword
  obtain ⟨debug, _, _, rfl⟩ := hword
  exact debug.le_length_bytes d.width

theorem readPrototype_bounds {levels depth : Nat} {data : Bytes} {start next : Int} {p : Prototype}
    (hinside : Inside data start) (h : (d.readPrototype levels depth).Accepts data start p next) :
    start < next ∧ Inside data next := by
  have hbounds := (d.recognizes_readPrototype levels depth).bounds (d.width.bytes + prototypeSize)
    ?_ hinside h
  · have hpositive : 0 < prototypeSize := by decide
    exact ⟨by omega, hbounds.2⟩
  · intro word _ hword
    obtain ⟨q, _, _, rfl⟩ := hword
    exact q.le_length_bytes d.width

/-! ### The run of a prototype -/

section

variable {d : Decoder} {data : Bytes} {levels depth count : Nat} {start first last next : Int}
  {info : FunctionInfo} {children : List Prototype} {f : Fault}

theorem run_of_head (h : d.readHead.Accepts data start (info, count) first) :
    d.readPrototype (levels + 1) depth data start =
      (times count (d.readPrototype levels (depth + 1)) >>= d.readTail start depth info)
        data first := by
  have hposition : position.Accepts data start start start := ⟨rfl, rfl⟩
  rw [readPrototype_succ, Inner.position.silent.run_bind hposition,
    d.inner_readHead.silent.run_bind h]

theorem run_of_head_error (h : (d.readHead data start).result = .error f) :
    (d.readPrototype (levels + 1) depth data start).result = .error f ∧
      (d.readPrototype (levels + 1) depth data start).notes = [] := by
  have hposition : position.Accepts data start start start := ⟨rfl, rfl⟩
  rw [readPrototype_succ, Inner.position.silent.run_bind hposition, result_bind_of_error h,
    notes_bind_of_error h, d.inner_readHead.silent]
  exact ⟨rfl, rfl⟩

theorem run_readTail (h : d.skipDebug.Accepts data last () next) :
    d.readTail start depth info children data last = ⟨.ok (.node info children), next,
      [(Prototype.node info children).report start depth]⟩ := by
  rw [readTail, d.inner_skipDebug.silent.run_bind h]
  rfl

theorem run_of_parts (hhead : d.readHead.Accepts data start (info, count) first)
    (hchildren : (times count (d.readPrototype levels (depth + 1))).Accepts data first children
      last)
    (hdebug : d.skipDebug.Accepts data last () next) :
    d.readPrototype (levels + 1) depth data start = ⟨.ok (.node info children), next,
      (times count (d.readPrototype levels (depth + 1)) data first).notes ++
        [(Prototype.node info children).report start depth]⟩ := by
  rw [run_of_head hhead, hchildren.run_bind, run_readTail hdebug]

theorem run_readTail_of_error (h : (d.skipDebug data last).result = .error f) :
    (d.readTail start depth info children data last).result = .error f ∧
      (d.readTail start depth info children data last).notes = [] := by
  rw [readTail, result_bind_of_error h, notes_bind_of_error h, d.inner_skipDebug.silent]
  exact ⟨rfl, rfl⟩

end

/-! ### Completions -/

/-- What is completed by the decoder when it is to read a prototype at `start`: the prototype, if it
is read whole; and if its own fields are, what is completed of those nested in it, of which each is
begun only once the earlier ones are read. -/
inductive Completes (data : Bytes) : (levels depth : Nat) → (start : Int) → Completion → Prop
  | self {levels depth : Nat} {start stop : Int} {p : Prototype}
    (h : (d.readPrototype levels depth).Accepts data start p stop) :
    Completes data levels depth start ⟨p, start, depth, stop⟩
  | nested {levels depth count k : Nat} {start first next : Int} {info : FunctionInfo}
    {earlier : List Prototype} {x : Completion}
    (hhead : d.readHead.Accepts data start (info, count) first) (hk : k < count)
    (hearlier : (times k (d.readPrototype levels (depth + 1))).Accepts data first earlier next)
    (h : Completes data levels (depth + 1) next x) : Completes data (levels + 1) depth start x

def CompletesAmong (data : Bytes) (levels depth count : Nat) (first : Int) (x : Completion) :
    Prop :=
  ∃ k earlier next, k < count ∧
    (times k (d.readPrototype levels depth)).Accepts data first earlier next ∧
      d.Completes data levels depth next x

section

variable {d : Decoder} {data : Bytes} {levels depth count : Nat} {start first middle : Int}
  {x : Completion}

theorem completes_succ_iff {info : FunctionInfo}
    (hhead : d.readHead.Accepts data start (info, count) first) :
    d.Completes data (levels + 1) depth start x ↔
      (∃ p stop, (d.readPrototype (levels + 1) depth).Accepts data start p stop ∧
        x = ⟨p, start, depth, stop⟩) ∨ d.CompletesAmong data levels (depth + 1) count first x := by
  constructor
  · intro h
    cases h with
    | self h => exact .inl ⟨_, _, h, rfl⟩
    | nested hhead' hk hearlier h =>
      obtain ⟨hheads, rfl⟩ := hhead.unique hhead'
      cases hheads
      exact .inr ⟨_, _, _, hk, hearlier, h⟩
  · rintro (⟨p, stop, h, rfl⟩ | ⟨k, earlier, next, hk, hearlier, h⟩)
    · exact .self h
    · exact .nested hhead hk hearlier h

theorem completesAmong_succ_iff : d.CompletesAmong data levels depth (count + 1) first x ↔
    d.Completes data levels depth first x ∨
      ∃ p middle, (d.readPrototype levels depth).Accepts data first p middle ∧
        d.CompletesAmong data levels depth count middle x := by
  constructor
  · intro h
    obtain ⟨k, earlier, next, hk, hearlier, h⟩ := h
    cases k with
    | zero =>
      obtain rfl := hearlier.2
      exact .inl h
    | succ k =>
      obtain ⟨p, middle, hp, rest, hrest, rfl⟩ := times_succ_accepts_iff.mp hearlier
      exact .inr ⟨p, middle, hp, k, rest, next, Nat.lt_of_succ_lt_succ hk, hrest, h⟩
  · rintro (h | ⟨p, middle, hp, k, rest, next, hk, hrest, h⟩)
    · exact ⟨0, [], first, Nat.succ_pos count, ⟨rfl, rfl⟩, h⟩
    · have hearlier := times_succ_accepts_iff.mpr ⟨p, middle, hp, rest, hrest, rfl⟩
      exact ⟨k + 1, _, next, Nat.succ_lt_succ hk, hearlier, h⟩

/-- The notes that the scan takes from `start` on are the reports of what is completed, in the order
in which it ends. -/
structure Lists {α : Type} (s : Scan α) (data : Bytes) (start : Int) (completes : Completion → Prop)
    (xs : List Completion) : Prop where
  notes : (s data start).notes = xs.map Completion.report
  mem_iff : ∀ x, x ∈ xs ↔ completes x
  ascending : xs.Pairwise fun x y => x.stop < y.stop
  start_lt : ∀ x ∈ xs, start < x.stop
  stop_le : ∀ a next, s.Accepts data start a next → ∀ x ∈ xs, x.stop ≤ next

theorem Lists.nil {α : Type} {s : Scan α} {completes : Completion → Prop}
    (hnotes : (s data start).notes = []) (hnone : ∀ x, ¬completes x) :
    Lists s data start completes [] where
  notes := hnotes
  mem_iff x := iff_of_false List.not_mem_nil (hnone x)
  ascending := List.Pairwise.nil
  start_lt := fun _ hx => by cases hx
  stop_le := fun _ _ _ _ hx => by cases hx

/-- What is completed of a sibling that is read whole is listed before what is completed of those
that follow it. -/
theorem Lists.times_of_read {p : Prototype} {xs ys : List Completion} (hinside : Inside data first)
    (hp : (d.readPrototype levels depth).Accepts data first p middle)
    (hxs : Lists (d.readPrototype levels depth) data first (d.Completes data levels depth first) xs)
    (hys : Lists (times count (d.readPrototype levels depth)) data middle
      (d.CompletesAmong data levels depth count middle) ys) :
    Lists (times (count + 1) (d.readPrototype levels depth)) data first
      (d.CompletesAmong data levels depth (count + 1) first) (xs ++ ys) := by
  obtain ⟨hforward, hmiddle⟩ := d.readPrototype_bounds hinside hp
  refine ⟨?_, fun x => ?_, ?_, fun x hx => ?_, fun as next h x hx => ?_⟩
  · rw [notes_times_succ hp, hxs.notes, hys.notes, List.map_append]
  · rw [List.mem_append, hxs.mem_iff, hys.mem_iff, completesAmong_succ_iff]
    refine or_congr_right ⟨fun h => ⟨p, middle, hp, h⟩, fun h => ?_⟩
    obtain ⟨p', middle', hp', h⟩ := h
    obtain ⟨rfl, rfl⟩ := hp.unique hp'
    exact h
  · refine List.pairwise_append.mpr ⟨hxs.ascending, hys.ascending, fun x hx y hy => ?_⟩
    exact Int.lt_of_le_of_lt (hxs.stop_le p middle hp x hx) (hys.start_lt y hy)
  · rcases List.mem_append.mp hx with hx | hx
    · exact hxs.start_lt x hx
    · exact Int.lt_trans hforward (hys.start_lt x hx)
  · obtain ⟨p', middle', hp', rest, hrest, _⟩ := times_succ_accepts_iff.mp h
    obtain ⟨rfl, rfl⟩ := hp.unique hp'
    rcases List.mem_append.mp hx with hx | hx
    · have hadvances := ((d.recognizes_readPrototype levels depth).times count).advances
      calc x.stop ≤ middle := hxs.stop_le p middle hp x hx
        _ ≤ next := (hadvances data middle rest next hmiddle hrest).1
    · exact hys.stop_le rest next hrest x hx

/-- At a sibling that fails the list ends. -/
theorem Lists.times_of_failed {f : Fault} {xs : List Completion}
    (hf : (d.readPrototype levels depth data first).result = .error f)
    (hxs : Lists (d.readPrototype levels depth) data first (d.Completes data levels depth first)
      xs) :
    Lists (times (count + 1) (d.readPrototype levels depth)) data first
      (d.CompletesAmong data levels depth (count + 1) first) xs where
  notes := by rw [times_succ, notes_bind_of_error hf, hxs.notes]
  mem_iff x := by
    rw [hxs.mem_iff, completesAmong_succ_iff, iff_self_or]
    intro h
    obtain ⟨_, _, hp, _⟩ := h
    exact absurd hp (not_accepts_of_error hf)
  ascending := hxs.ascending
  start_lt := hxs.start_lt
  stop_le as next h := by
    obtain ⟨_, _, hp, _⟩ := times_succ_accepts_iff.mp h
    exact absurd hp (not_accepts_of_error hf)

/-- What is completed among siblings is listed one after another, up to the first that fails. -/
theorem exists_lists_times (hone : ∀ start, Inside data start → ∃ xs,
      Lists (d.readPrototype levels depth) data start (d.Completes data levels depth start) xs)
    (count : Nat) (hinside : Inside data first) : ∃ xs,
      Lists (times count (d.readPrototype levels depth)) data first
        (d.CompletesAmong data levels depth count first) xs := by
  induction count generalizing first with
  | zero =>
    refine ⟨[], .nil rfl fun x h => ?_⟩
    obtain ⟨k, _, _, hk, _⟩ := h
    exact absurd hk (Nat.not_lt_zero k)
  | succ count ih =>
    obtain ⟨xs, hxs⟩ := hone first hinside
    rcases accepts_or_error (d.readPrototype levels depth) data first with
      ⟨p, middle, hp⟩ | ⟨f, hf⟩
    · obtain ⟨ys, hys⟩ := ih (d.readPrototype_bounds hinside hp).2
      exact ⟨xs ++ ys, hxs.times_of_read hinside hp hys⟩
    · exact ⟨xs, hxs.times_of_failed hf⟩

/-- A prototype that fails after its own fields leaves the list of what is nested in it. -/
theorem Lists.of_failed {info : FunctionInfo} {f : Fault} {xs : List Completion}
    (hinside : Inside data start) (hhead : d.readHead.Accepts data start (info, count) first)
    (hxs : Lists (times count (d.readPrototype levels (depth + 1))) data first
      (d.CompletesAmong data levels (depth + 1) count first) xs)
    (hresult : (d.readPrototype (levels + 1) depth data start).result = .error f)
    (hnotes : (d.readPrototype (levels + 1) depth data start).notes =
      (times count (d.readPrototype levels (depth + 1)) data first).notes) :
    Lists (d.readPrototype (levels + 1) depth) data start
      (d.Completes data (levels + 1) depth start) xs where
  notes := hnotes.trans hxs.notes
  mem_iff x := by
    rw [hxs.mem_iff, completes_succ_iff hhead, iff_or_self]
    intro h
    obtain ⟨_, _, h, _⟩ := h
    exact absurd h (not_accepts_of_error hresult)
  ascending := hxs.ascending
  start_lt x hx := Int.lt_of_le_of_lt (d.advances_readHead _ _ _ _ hinside hhead).1
    (hxs.start_lt x hx)
  stop_le _ _ h := absurd h (not_accepts_of_error hresult)

/-- A prototype that is read whole ends after all that are nested in it. -/
theorem Lists.of_read {info : FunctionInfo} {children : List Prototype} {last stop : Int}
    {xs : List Completion} (hinside : Inside data start)
    (hhead : d.readHead.Accepts data start (info, count) first)
    (hxs : Lists (times count (d.readPrototype levels (depth + 1))) data first
      (d.CompletesAmong data levels (depth + 1) count first) xs)
    (hchildren : (times count (d.readPrototype levels (depth + 1))).Accepts data first children
      last)
    (hdebug : d.skipDebug.Accepts data last () stop) :
    Lists (d.readPrototype (levels + 1) depth) data start
      (d.Completes data (levels + 1) depth start)
      (xs ++ [⟨.node info children, start, depth, stop⟩]) := by
  have hrun := run_of_parts hhead hchildren hdebug
  have haccepts : (d.readPrototype (levels + 1) depth).Accepts data start (.node info children)
      stop := by
    rw [Accepts, hrun]
    exact ⟨rfl, rfl⟩
  have hfirst := d.advances_readHead _ _ _ _ hinside hhead
  have hlast := ((d.recognizes_readPrototype levels (depth + 1)).times count).advances
    _ _ _ _ hfirst.2 hchildren
  have hstop := d.skipDebug_bounds hlast.2 hdebug
  have hends : ∀ x ∈ xs, x.stop < stop := by
    intro x hx
    have hbefore := hxs.stop_le children last hchildren x hx
    omega
  refine ⟨?_, fun x => ?_, ?_, ?_, ?_⟩
  · rw [hrun, List.map_append, ← hxs.notes]
    rfl
  · rw [List.mem_append, hxs.mem_iff, List.mem_singleton, completes_succ_iff hhead, or_comm]
    refine or_congr_left ⟨fun h => ⟨_, _, haccepts, h⟩, fun h => ?_⟩
    obtain ⟨p, stop', h, rfl⟩ := h
    obtain ⟨rfl, rfl⟩ := haccepts.unique h
    rfl
  · refine List.pairwise_append.mpr
      ⟨hxs.ascending, List.pairwise_singleton _ _, fun x hx y hy => ?_⟩
    obtain rfl := List.mem_singleton.mp hy
    exact hends x hx
  · intro x hx
    rcases List.mem_append.mp hx with hx | hx
    · exact Int.lt_of_le_of_lt hfirst.1 (hxs.start_lt x hx)
    · obtain rfl := List.mem_singleton.mp hx
      exact (d.readPrototype_bounds hinside haccepts).1
  · intro p next h x hx
    obtain ⟨rfl, rfl⟩ := haccepts.unique h
    rcases List.mem_append.mp hx with hx | hx
    · exact Int.le_of_lt (hends x hx)
    · obtain rfl := List.mem_singleton.mp hx
      exact Int.le_refl _

/-- The induction is on the levels that are left. -/
theorem exists_lists_readPrototype (levels depth : Nat) (hinside : Inside data start) : ∃ xs,
    Lists (d.readPrototype levels depth) data start (d.Completes data levels depth start) xs := by
  induction levels generalizing depth start with
  | zero =>
    refine ⟨[], .nil rfl fun x h => ?_⟩
    cases h with
    | self h => cases h.1
  | succ levels ih =>
    rcases accepts_or_error d.readHead data start with ⟨⟨info, count⟩, first, hhead⟩ | ⟨f, hf⟩
    · have hfirst := d.advances_readHead _ _ _ _ hinside hhead
      obtain ⟨xs, hxs⟩ := exists_lists_times (fun start => ih (depth + 1)) count hfirst.2
      have hrun : d.readPrototype (levels + 1) depth data start = _ := run_of_head hhead
      rcases accepts_or_error (times count (d.readPrototype levels (depth + 1))) data first with
        ⟨children, last, hchildren⟩ | ⟨f, hf⟩
      · rcases accepts_or_error d.skipDebug data last with ⟨_, stop, hdebug⟩ | ⟨f, hf⟩
        · exact ⟨_, hxs.of_read hinside hhead hchildren hdebug⟩
        · rw [hchildren.run_bind] at hrun
          have hresult : (d.readPrototype (levels + 1) depth data start).result = .error f :=
            hrun ▸ (run_readTail_of_error hf).1
          refine ⟨xs, hxs.of_failed hinside hhead hresult ?_⟩
          rw [hrun, (run_readTail_of_error hf).2, List.append_nil]
      · have hresult : (d.readPrototype (levels + 1) depth data start).result = .error f :=
          hrun ▸ result_bind_of_error hf _
        exact ⟨xs, hxs.of_failed hinside hhead hresult (hrun ▸ notes_bind_of_error hf _)⟩
    · obtain ⟨hresult, hnotes⟩ :
          (d.readPrototype (levels + 1) depth data start).result = .error f ∧ _ :=
        run_of_head_error hf
      refine ⟨[], .nil hnotes fun x h => ?_⟩
      cases h with
      | self h => exact absurd h (not_accepts_of_error hresult)
      | nested hhead _ _ _ => exact absurd hhead (not_accepts_of_error hf)

end

end Decoder

end LuaBytecode
