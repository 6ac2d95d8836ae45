import LuaBytecode.Proofs.Options
import LuaBytecode.Session

/-!
# Steps of a session that only log

With no trace file open a record is a line of the console, and nothing else changes. Reading options
and chunks and decoding are steps of this kind whatever they result in, and none of them logs an
error.
-/

namespace LuaBytecode

theorem Text.append_assoc (s t u : Text) : s ++ t ++ u = s ++ (t ++ u) :=
  congrArg Text.mk (List.append_assoc s.codes t.codes u.codes)

theorem Text.append_empty (t : Text) : t ++ Text.empty = t :=
  congrArg Text.mk (List.append_nil t.codes)

theorem Text.concat_append (ss ts : List Text) : concat (ss ++ ts) = concat ss ++ concat ts :=
  congrArg Text.mk List.flatMap_append

theorem Text.concat_singleton (t : Text) : concat [t] = t :=
  congrArg Text.mk (List.flatMap_singleton codes t)

namespace Log

def consoleText (rs : List Record) : Text := Text.concat (rs.map Record.consoleLine)

theorem consoleText_append (rs rs' : List Record) :
    consoleText (rs ++ rs') = consoleText rs ++ consoleText rs' := by
  rw [consoleText, List.map_append, Text.concat_append]
  rfl

theorem consoleText_singleton (r : Record) : consoleText [r] = r.consoleLine :=
  Text.concat_singleton _

namespace State

variable {s s' s'' : State}

theorem log_of_untraced (h : s.traces = []) (r : Record) :
    s.log r = if r.level.weight < s.effectiveThreshold then s
      else { s with console := s.console ++ r.consoleLine } := by
  have htrace : s.writeTrace r = s := by
    rw [writeTrace, h]
    change { s with traces := [] } = s
    rw [← h]
  rw [log, htrace]

/-- No trace file is open, and what has happened is that records below errors were shown on the
console. -/
structure Quiet (s s' : State) : Prop where
  trace : s'.traces = []
  files : s'.files = s.files
  threshold : s'.threshold = s.threshold
  consoleThreshold : s'.consoleThreshold = s.consoleThreshold
  console : ∃ rs : List Record, (∀ r ∈ rs, r.level ≠ .error) ∧
    s'.console = s.console ++ consoleText rs

namespace Quiet

theorem refl (h : s.traces = []) : Quiet s s :=
  ⟨h, rfl, rfl, rfl, [], by simp, (Text.append_empty _).symm⟩

theorem trans (h : Quiet s s') (h' : Quiet s' s'') : Quiet s s'' := by
  obtain ⟨rs, hrs, hconsole⟩ := h.console
  obtain ⟨rs', hrs', hconsole'⟩ := h'.console
  refine ⟨h'.trace, h'.files.trans h.files, h'.threshold.trans h.threshold,
    h'.consoleThreshold.trans h.consoleThreshold, rs ++ rs',
    List.forall_mem_append.mpr ⟨hrs, hrs'⟩, ?_⟩
  rw [hconsole', hconsole, consoleText_append, Text.append_assoc]

theorem log (h : s.traces = []) {r : Record} (hr : r.level ≠ .error) : Quiet s (s.log r) := by
  rw [log_of_untraced h]
  split
  · exact refl h
  · refine ⟨h, rfl, rfl, rfl, [r], by simpa using hr, ?_⟩
    rw [consoleText_singleton]

theorem logAll (h : s.traces = []) {rs : List Record} (hrs : ∀ r ∈ rs, r.level ≠ .error) :
    Quiet s (s.logAll rs) := by
  induction rs generalizing s with
  | nil => exact refl h
  | cons r rest ih =>
    have hlog := log h (hrs r List.mem_cons_self)
    exact hlog.trans (ih hlog.trace fun r' hr' => hrs r' (List.mem_cons_of_mem r hr'))

end Quiet

end State

end Log

namespace Session

open Log.State (Quiet)

variable {α : Type} {st : Log.State}

theorem run_liftResult (r : Except Failure α) : (liftResult r).run st = (r, st) := by
  cases r <;> rfl

/-- The step ends with that result and only logs. -/
def Gives (x : Session α) (st : Log.State) (r : Except Failure α) : Prop :=
  ∃ st', x.run st = (r, st') ∧ Quiet st st'

theorem Gives.bind {β : Type} {x : Session α} {f : α → Session β} {a : α} {r : Except Failure β}
    (hx : x.Gives st (.ok a)) (hf : ∀ st', Quiet st st' → (f a).Gives st' r) :
    (x >>= f).Gives st r := by
  obtain ⟨st', hrun, hquiet⟩ := hx
  obtain ⟨st'', hrun', hquiet'⟩ := hf st' hquiet
  exact ⟨st'', (Action.run_bind_of_ok hrun).trans hrun', hquiet.trans hquiet'⟩

theorem Gives.bind_error {β : Type} {x : Session α} {f : α → Session β} {e : Failure}
    (hx : x.Gives st (.error e)) : (x >>= f).Gives st (.error e) := by
  obtain ⟨st', hrun, hquiet⟩ := hx
  exact ⟨st', Action.run_bind_of_error hrun, hquiet⟩

theorem gives_liftResult (h : st.traces = []) (r : Except Failure α) : (liftResult r).Gives st r :=
  ⟨st, run_liftResult r, Quiet.refl h⟩

theorem gives_pure (h : st.traces = []) (a : α) : (pure a : Session α).Gives st (.ok a) :=
  ⟨st, rfl, Quiet.refl h⟩

theorem gives_log (h : st.traces = []) (source : Log.Source) {level : Log.Level} (message : Text)
    (hlevel : level ≠ .error) :
    (log source level message).Gives st (.ok ()) :=
  ⟨_, rfl, Quiet.log h hlevel⟩

theorem run_decodeChunk (o : Options) (b : Bytes) : (decodeChunk o b).run st =
    ((decode o b).1.mapError .scan, st.logAll ((decode o b).2.map Log.Record.ofNote)) :=
  run_liftResult ((decode o b).1.mapError .scan)

theorem gives_decodeChunk (h : st.traces = []) (o : Options) (b : Bytes) :
    (decodeChunk o b).Gives st ((decode o b).1.mapError .scan) := by
  refine ⟨_, run_decodeChunk o b, Quiet.logAll h fun r hr => ?_⟩
  obtain ⟨note, _, rfl⟩ := List.mem_map.mp hr
  exact nofun

theorem textOf_eq_error_iff {content : Bytes} {f : Failure} :
    textOf content = .error f ↔ ∃ m, Utf8.decode content = .error m ∧ f = .text m := by
  unfold textOf
  cases Utf8.decode content with
  | ok text => simp
  | error m => simp [eq_comm]

theorem optionsOf_eq_ok_iff {nesting : Nat} {p : Path} {content : Bytes} {o : Options} :
    optionsOf nesting p content = .ok o ↔ ∃ text members, textOf content = .ok text ∧
      Json.parse nesting text = .ok (.object members) ∧ Options.ofMembers members = .ok o := by
  unfold optionsOf
  rw [Action.bind_eq_ok_iff]
  constructor
  · rintro ⟨text, htext, h⟩
    split at h
    · rename_i members hparse
      exact ⟨text, members, htext, hparse, Action.mapError_eq_ok_iff.mp h⟩
    all_goals cases h
  · rintro ⟨text, members, htext, hparse, hmembers⟩
    refine ⟨text, htext, ?_⟩
    rw [hparse]
    exact Action.mapError_eq_ok_iff.mpr hmembers

theorem gives_loadOptionsWithin (h : st.traces = []) (nesting : Nat) (p : Path) :
    ∃ r, (loadOptionsWithin nesting p).Gives st r ∧ ∀ o, r = .ok o ↔
      ∃ content, st.files.read p = .ok content ∧ optionsOf nesting p content = .ok o := by
  unfold Gives loadOptionsWithin
  simp only [Action.run_get_bind]
  cases hread : st.files.read p with
  | error f =>
    cases f with
    | system e => exact ⟨_, ⟨st, rfl, Quiet.refl h⟩, fun o => ⟨nofun, nofun⟩⟩
    | path e => exact ⟨_, ⟨st, rfl, Quiet.refl h⟩, fun o => ⟨nofun, nofun⟩⟩
  | ok content =>
    simp only [Except.ok.injEq, exists_eq_left']
    cases hoptions : optionsOf nesting p content with
    | error f => exact ⟨_, (gives_liftResult h (.error f)).bind_error, fun o => Iff.rfl⟩
    | ok o =>
      refine ⟨_, (gives_liftResult h (.ok o)).bind fun st' hst' => ?_, fun o => Iff.rfl⟩
      refine (gives_log hst'.trace _ _ (by decide)).bind fun st'' hst'' => gives_pure hst''.trace o

end Session

end LuaBytecode
