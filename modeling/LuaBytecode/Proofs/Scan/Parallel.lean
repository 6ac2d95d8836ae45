import LuaBytecode.Proofs.Scan.Simulation

/-!
# Two scans side by side

Two scans of the same data run in parallel if they pass over the same bytes as long as both
succeed, with values that are related, and if when one of them fails the two faults match, except
that the first may also end early with a fault of a certain kind. The relation is kept by the
combinators that scans are made of, so that two decoders that differ in one place are compared by
comparing them in that place.
-/

namespace LuaBytecode

/-- Which faults of two scans match, and with which faults the first may end early. The faults that
have nothing to do with text match themselves. -/
structure Comparison where
  Matches : Fault → Fault → Prop
  Early : Fault → Prop
  matches_self : ∀ e : DecodeError, e.kind ≠ .invalidString → Matches (.decode e) (.decode e)

theorem Comparison.decode_refl (e : DecodeError) (_ : e.kind ≠ .invalidString) :
    Fault.decode e = .decode e := rfl

namespace Scan

variable {α β γ δ : Type} {cmp : Comparison}

/-- What two scans leave that were started together before `after`. -/
inductive Alike (cmp : Comparison) (R : α → β → Prop) (before after : Bytes) :
    Scanned α → Scanned β → Prop
  | ok {a : α} {b : β} {word rest : Bytes} {notes notes' : List Note}
      (hafter : after = word ++ rest) (hvalue : R a b) :
      Alike cmp R before after ⟨.ok a, (before ++ word).length, notes⟩
        ⟨.ok b, (before ++ word).length, notes'⟩
  | error {f g : Fault} {offset offset' : Int} {notes notes' : List Note}
      (hfault : cmp.Matches f g) :
      Alike cmp R before after ⟨.error f, offset, notes⟩ ⟨.error g, offset', notes'⟩
  | early {f : Fault} {offset : Int} {notes : List Note} {r : Scanned β} (hfault : cmp.Early f) :
      Alike cmp R before after ⟨.error f, offset, notes⟩ r

/-- Wherever the two scans are started together, what they leave is alike. -/
def Parallel (cmp : Comparison) (R : α → β → Prop) (s : Scan α) (t : Scan β) : Prop :=
  ∀ before after : Bytes, Alike cmp R before after (s (before ++ after) before.length)
    (t (before ++ after) before.length)

theorem Alike.stay {R : α → β → Prop} {a : α} {b : β} (h : R a b) (before after : Bytes)
    (notes notes' : List Note) :
    Alike cmp R before after ⟨.ok a, before.length, notes⟩ ⟨.ok b, before.length, notes'⟩ := by
  have hstay : Alike cmp R before after ⟨.ok a, (before ++ []).length, notes⟩
      ⟨.ok b, (before ++ []).length, notes'⟩ := .ok (List.nil_append after).symm h
  rwa [List.append_nil] at hstay

/-- What is alike after the first scan stays so, seen from where the first scan started. -/
theorem Alike.after_word {S : γ → δ → Prop} {before word rest : Bytes} {r : Scanned γ}
    {r' : Scanned δ} (h : Alike cmp S (before ++ word) rest r r') (notes notes' : List Note) :
    Alike cmp S before (word ++ rest) ⟨r.result, r.offset, notes ++ r.notes⟩
      ⟨r'.result, r'.offset, notes' ++ r'.notes⟩ := by
  cases h with
  | ok hafter hvalue =>
    subst hafter
    rw [List.append_assoc before]
    exact .ok (List.append_assoc word _ _).symm hvalue
  | error hfault => exact .error hfault
  | early hfault => exact .early hfault

theorem Alike.exists_error_left {R : α → β → Prop} {before after : Bytes} {r : Scanned α}
    {r' : Scanned β} (h : Alike cmp R before after r r') {g : Fault} (hg : r'.result = .error g) :
    ∃ f, r.result = .error f ∧ (cmp.Matches f g ∨ cmp.Early f) := by
  cases h with
  | ok => cases hg
  | @error f g' offset offset' notes notes' hfault =>
    have heq : g' = g := Except.error.inj hg
    exact ⟨f, rfl, .inl (heq ▸ hfault)⟩
  | @early f offset notes r' hfault => exact ⟨f, rfl, .inr hfault⟩

/-- A failure of the first scan comes early or is met by a failure of the second. -/
theorem Alike.exists_error_right {R : α → β → Prop} {before after : Bytes} {r : Scanned α}
    {r' : Scanned β} (h : Alike cmp R before after r r') {f : Fault} (hf : r.result = .error f) :
    cmp.Early f ∨ ∃ g, r'.result = .error g ∧ cmp.Matches f g := by
  cases h with
  | ok => cases hf
  | @error f' g offset offset' notes notes' hfault =>
    have heq : f' = f := Except.error.inj hf
    exact .inr ⟨g, rfl, heq ▸ hfault⟩
  | @early f' offset notes r' hfault =>
    have heq : f' = f := Except.error.inj hf
    exact .inl (heq ▸ hfault)

theorem Parallel.bind {R : α → β → Prop} {S : γ → δ → Prop} {s : Scan α} {t : Scan β}
    {k : α → Scan γ} {l : β → Scan δ} (hfirst : Parallel cmp R s t)
    (hnext : ∀ a b, R a b → Parallel cmp S (k a) (l b)) :
    Parallel cmp S (s >>= k) (t >>= l) := by
  intro before after
  have h := hfirst before after
  generalize hs : s (before ++ after) before.length = r at h
  generalize ht : t (before ++ after) before.length = r' at h
  cases h with
  | @ok a b word rest notes notes' hafter hvalue =>
    subst hafter
    rw [bind_of_ok hs, bind_of_ok ht, ← List.append_assoc]
    exact (hnext a b hvalue (before ++ word) rest).after_word notes notes'
  | error hfault =>
    rw [bind_of_error hs, bind_of_error ht]
    exact .error hfault
  | early hfault =>
    rw [bind_of_error hs]
    exact .early hfault

theorem Parallel.pure {R : α → β → Prop} {a : α} {b : β} (h : R a b) :
    Parallel cmp R (Pure.pure a) (Pure.pure b) :=
  fun before after => Alike.stay h before after [] []

theorem Parallel.fail {R : α → β → Prop} {f g : Fault} (h : cmp.Matches f g) :
    Parallel cmp R (fail f) (fail g) :=
  fun _ _ => .error h

theorem Parallel.failAt {R : α → β → Prop} (offset : Int) {cause : Cause}
    (h : DecodeError.kind ⟨cause, offset⟩ ≠ .invalidString) :
    Parallel cmp R (failAt offset cause) (failAt offset cause) :=
  .fail (cmp.matches_self _ h)

theorem Stationary.parallel {s : Scan α} (hs : s.Stationary) : Parallel cmp Eq s s := by
  intro before after
  obtain ⟨a, notes, ha⟩ := hs (before ++ after) before.length
  rw [ha]
  exact Alike.stay rfl before after notes notes

theorem Parallel.takeNote (n n' : Note) : Parallel cmp Eq (takeNote n) (takeNote n') :=
  fun before after => Alike.stay rfl before after [n] [n']

/-! ### Reads -/

/-- Both sides make their value of the same bytes, which are as many as are asked for. -/
theorem Takes.parallel {s : Scan α} {purpose : Text} {field : Option Text} {size : Nat}
    {f : Bytes → α} (h : s.Takes purpose field size f) :
    Parallel cmp (fun a b => ∃ word : Bytes, word.length = size ∧ a = f word ∧ b = f word) s s := by
  intro before after
  rw [h before after]
  by_cases hsize : size ≤ after.length
  · rw [if_pos hsize, offset_after_take before hsize]
    exact .ok (List.take_append_drop size after).symm
      ⟨_, List.length_take_of_le hsize, rfl, rfl⟩
  · rw [if_neg hsize]
    exact .error (cmp.matches_self _ (by simp [DecodeError.kind]))

theorem Parallel.readSize (w : SizeWidth) (field : Option Text) :
    Parallel cmp Eq (readSize w.bytes field) (readSize w.bytes field) := by
  intro before after
  rcases readSize_cases w field before after with ⟨e, hs, he⟩ | ⟨n, rest, hafter, _, hs⟩
  · rw [hs]
    exact .error (cmp.matches_self e he.ne_invalidString)
  · rw [hs]
    exact .ok hafter rfl

/-- Running in parallel is such a relation. -/
def Parallel.simulation (cmp : Comparison) : Simulation where
  Rel := Parallel cmp
  pure := Parallel.pure
  bind := Parallel.bind
  failAt offset _ h := Parallel.failAt offset fun hkind => h (by simp [hkind])
  position := stationary_position.parallel
  takeNote := Parallel.takeNote
  takes := Takes.parallel
  readSize := Parallel.readSize

end Scan

end LuaBytecode
