/-!
# Results and actions that may fail

An action on a state gives a result or an error, and keeps what it did to the state in either case.
-/

namespace LuaBytecode.Action

section

variable {ε δ α β : Type} {x : Except ε α}

theorem bind_eq_ok_iff {f : α → Except ε β} {b : β} :
    (x >>= f) = .ok b ↔ ∃ a, x = .ok a ∧ f a = .ok b := by
  cases x with
  | error e => exact ⟨nofun, nofun⟩
  | ok a =>
    refine ⟨fun h => ⟨a, rfl, h⟩, ?_⟩
    rintro ⟨_, ⟨⟩, h⟩
    exact h

theorem bind_eq_error_iff {f : α → Except ε β} {e : ε} :
    (x >>= f) = .error e ↔ x = .error e ∨ ∃ a, x = .ok a ∧ f a = .error e := by
  cases x with
  | error e' =>
    constructor
    · rintro ⟨⟩
      exact .inl rfl
    · rintro (⟨⟨⟩⟩ | ⟨_, h, _⟩)
      · rfl
      · cases h
  | ok a =>
    refine ⟨fun h => .inr ⟨a, rfl, h⟩, ?_⟩
    rintro (h | ⟨_, ⟨⟩, h⟩)
    · cases h
    · exact h

theorem map_eq_ok_iff {f : α → β} {b : β} : x.map f = .ok b ↔ ∃ a, x = .ok a ∧ f a = b := by
  cases x <;> simp [Except.map]

theorem mapError_ok (f : ε → δ) (a : α) : (Except.ok a : Except ε α).mapError f = .ok a := rfl

theorem mapError_error (f : ε → δ) (e : ε) :
    (Except.error e : Except ε α).mapError f = .error (f e) := rfl

theorem mapError_eq_ok_iff {f : ε → δ} {a : α} : x.mapError f = .ok a ↔ x = .ok a := by
  cases x <;> simp [mapError_ok, mapError_error]

theorem mapError_eq_error_iff {f : ε → δ} {d : δ} :
    x.mapError f = .error d ↔ ∃ e, x = .error e ∧ f e = d := by
  cases x <;> simp [mapError_ok, mapError_error]

end

variable {ε σ α β : Type} {x : ExceptT ε (StateM σ) α} {f : α → ExceptT ε (StateM σ) β} {s s' : σ}

theorem run_bind_of_ok {a : α} (h : x.run s = (.ok a, s')) : (x >>= f).run s = (f a).run s' := by
  change (x.run >>= ExceptT.bindCont f) s = _
  change (match x.run s with | (r, s) => ExceptT.bindCont f r s) = _
  rw [h]
  rfl

theorem run_bind_of_error {e : ε} (h : x.run s = (.error e, s')) :
    (x >>= f).run s = (.error e, s') := by
  change (match x.run s with | (r, s) => ExceptT.bindCont f r s) = _
  rw [h]
  rfl

theorem run_bind_eq_ok_iff {b : β} {t : σ} :
    (x >>= f).run s = (.ok b, t) ↔ ∃ a s', x.run s = (.ok a, s') ∧ (f a).run s' = (.ok b, t) := by
  obtain ⟨r, s', hx⟩ : ∃ r s', x.run s = (r, s') := ⟨_, _, rfl⟩
  cases r with
  | error e =>
    rw [run_bind_of_error hx, hx]
    exact ⟨nofun, nofun⟩
  | ok a =>
    rw [run_bind_of_ok hx, hx]
    refine ⟨fun h => ⟨a, s', rfl, h⟩, ?_⟩
    rintro ⟨_, _, ⟨⟩, h⟩
    exact h

theorem run_bind_fst_eq_error_iff {e : ε} :
    ((x >>= f).run s).1 = .error e ↔
      (x.run s).1 = .error e ∨ ∃ a s', x.run s = (.ok a, s') ∧ ((f a).run s').1 = .error e := by
  obtain ⟨r, s', hx⟩ : ∃ r s', x.run s = (r, s') := ⟨_, _, rfl⟩
  cases r with
  | error e' =>
    rw [run_bind_of_error hx, hx]
    constructor
    · rintro ⟨⟩
      exact .inl rfl
    · rintro (⟨⟨⟩⟩ | ⟨_, _, ⟨⟩, _⟩)
      rfl
  | ok a =>
    rw [run_bind_of_ok hx, hx]
    constructor
    · exact fun h => .inr ⟨a, s', rfl, h⟩
    · rintro (⟨⟨⟩⟩ | ⟨_, _, ⟨⟩, h⟩)
      exact h

theorem run_tryCatch {h : ε → ExceptT ε (StateM σ) α} : (tryCatch x h).run s =
    match x.run s with
    | (.ok a, s) => (.ok a, s)
    | (.error e, s) => (h e).run s := by
  change (match x.run s with
    | (r, s) =>
      (match r with
        | .ok a => (pure (.ok a) : StateM σ (Except ε α))
        | .error e => (h e).run) s) = _
  obtain ⟨r, s', hx⟩ : ∃ r s', x.run s = (r, s') := ⟨_, _, rfl⟩
  rw [hx]
  cases r <;> rfl

theorem run_liftM (r : Except ε α) : (liftM r : ExceptT ε (StateM σ) α).run s = (r, s) := by
  cases r <;> rfl

theorem run_get_bind {f : σ → ExceptT ε (StateM σ) β} : (get >>= f).run s = (f s).run s := rfl

end LuaBytecode.Action
