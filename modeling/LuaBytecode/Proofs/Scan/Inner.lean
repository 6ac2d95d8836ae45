import LuaBytecode.Proofs.Scan.Recognition
import LuaBytecode.Scan.Field

/-!
# Scans within a chunk

What reads a part of a chunk takes no notes, wherever it starts and whether or not it succeeds, and
does not complain of bytes after the chunk. So all notes of a decode are those taken between such
scans, and a complaint of bytes after the chunk comes from the end of it. What is recognized is
passed over, so that a scan inside the data goes on further along.
-/

namespace LuaBytecode.Scan

variable {α β : Type}

def Silent (s : Scan α) : Prop := ∀ data offset, (s data offset).notes = []

/-- Whatever the scan fails for, it is not that bytes are left. -/
def Unending (s : Scan α) : Prop :=
  ∀ data offset e, (s data offset).result = .error (.decode e) → e.kind ≠ .trailingData

structure Inner (s : Scan α) : Prop where
  silent : s.Silent
  unending : s.Unending

/-! ### Where a scan goes on -/

section

variable {data : Bytes} {start next next' : Int} {a a' : α}

theorem Accepts.unique {s : Scan α} (h : s.Accepts data start a next)
    (h' : s.Accepts data start a' next') : a = a' ∧ next = next' :=
  ⟨Except.ok.inj (h.1.symm.trans h'.1), h.2.symm.trans h'.2⟩

theorem not_accepts_of_error {s : Scan α} {f : Fault} (h : (s data start).result = .error f) :
    ¬s.Accepts data start a next := fun haccepts => by cases h.symm.trans haccepts.1

/-- Either the scan accepts something, or it fails. -/
theorem accepts_or_error (s : Scan α) (data : Bytes) (start : Int) :
    (∃ a next, s.Accepts data start a next) ∨ ∃ f, (s data start).result = .error f := by
  cases h : (s data start).result with
  | ok a => exact .inl ⟨a, _, h, rfl⟩
  | error f => exact .inr ⟨f, rfl⟩

/-- The offset is one of the data, or that of its end. -/
def Inside (data : Bytes) (offset : Int) : Prop := 0 ≤ offset ∧ offset ≤ data.length

theorem Inside.exists_append (h : Inside data start) :
    ∃ before after : Bytes, data = before ++ after ∧ start = before.length := by
  obtain ⟨hlow, hhigh⟩ := h
  refine ⟨data.take start.toNat, data.drop start.toNat, (List.take_append_drop _ _).symm, ?_⟩
  rw [List.length_take_of_le (by omega)]
  omega

/-- If the scan succeeds inside the data, it has not moved back and is still inside. -/
def Advances (s : Scan α) : Prop :=
  ∀ data start a next, Inside data start → s.Accepts data start a next →
    start ≤ next ∧ Inside data next

theorem Recognizes.bounds {s : Scan α} {L : Language α} (h : s.Recognizes L) (size : Nat)
    (hsize : L.AtLeast size) (hinside : Inside data start)
    (haccepts : s.Accepts data start a next) : start + size ≤ next ∧ Inside data next := by
  obtain ⟨before, after, rfl, rfl⟩ := hinside.exists_append
  obtain ⟨word, rest, rfl, rfl, hword⟩ := (h before after a next).mp haccepts
  have hmin := hsize word a hword
  rw [Inside]
  simp only [List.length_append]
  omega

theorem Recognizes.advances {s : Scan α} {L : Language α} (h : s.Recognizes L) : s.Advances := by
  intro data start a next hinside haccepts
  have hbounds := h.bounds 0 (Language.atLeast_zero L) hinside haccepts
  exact ⟨by omega, hbounds.2⟩

theorem Stationary.advances {s : Scan α} (h : s.Stationary) : s.Advances := by
  intro data start a next hinside haccepts
  obtain ⟨_, _, hrun⟩ := h data start
  obtain rfl : start = next := by
    rw [← haccepts.2, hrun]
  exact ⟨Int.le_refl start, hinside⟩

theorem Advances.bind {s : Scan α} {k : α → Scan β} (hs : s.Advances) (hk : ∀ a, (k a).Advances) :
    (s >>= k).Advances := by
  intro data start b last hinside haccepts
  obtain ⟨a, middle, hfirst, hsecond⟩ := accepts_bind_iff.mp haccepts
  obtain ⟨hmiddle, hinside⟩ := hs data start a middle hinside hfirst
  obtain ⟨hlast, hinside⟩ := hk a data middle b last hinside hsecond
  exact ⟨Int.le_trans hmiddle hlast, hinside⟩

end

/-! ### The notes of two scans -/

theorem Accepts.run_bind {s : Scan α} {data : Bytes} {offset middle : Int} {a : α}
    (h : s.Accepts data offset a middle) (k : α → Scan β) :
    (s >>= k) data offset = ⟨(k a data middle).result, (k a data middle).offset,
      (s data offset).notes ++ (k a data middle).notes⟩ := by
  obtain ⟨hvalue, hmiddle⟩ := h
  rcases hs : s data offset with ⟨r, next, notes⟩
  rw [hs] at hvalue hmiddle
  cases hvalue
  cases hmiddle
  exact bind_of_ok hs k

theorem Silent.run_bind {s : Scan α} (hs : s.Silent) {data : Bytes} {offset middle : Int} {a : α}
    (h : s.Accepts data offset a middle) (k : α → Scan β) :
    (s >>= k) data offset = k a data middle := by
  rw [h.run_bind k, hs data offset]
  rfl

theorem notes_bind_of_error {s : Scan α} {data : Bytes} {offset : Int} {f : Fault}
    (h : (s data offset).result = .error f) (k : α → Scan β) :
    ((s >>= k) data offset).notes = (s data offset).notes := by
  rcases hs : s data offset with ⟨r, next, notes⟩
  rw [hs] at h
  cases h
  rw [bind_of_error hs]

theorem notes_bind_pure (s : Scan α) (f : α → β) (data : Bytes) (offset : Int) :
    ((s >>= fun a => Pure.pure (f a)) data offset).notes = (s data offset).notes := by
  rcases accepts_or_error s data offset with ⟨a, middle, h⟩ | ⟨f, h⟩
  · rw [h.run_bind]
    exact List.append_nil _
  · exact notes_bind_of_error h _

theorem times_succ (count : Nat) (s : Scan α) :
    times (count + 1) s = s >>= fun a => times count s >>= fun rest => Pure.pure (a :: rest) := rfl

theorem notes_times_succ {s : Scan α} {data : Bytes} {first middle : Int} {a : α}
    (h : s.Accepts data first a middle) (count : Nat) :
    (times (count + 1) s data first).notes =
      (s data first).notes ++ (times count s data middle).notes := by
  rw [times_succ, h.run_bind]
  exact congrArg _ (notes_bind_pure (times count s) (a :: ·) data middle)

theorem times_succ_accepts_iff {s : Scan α} {count : Nat} {data : Bytes} {first next : Int}
    {as : List α} : (times (count + 1) s).Accepts data first as next ↔
      ∃ a middle, s.Accepts data first a middle ∧
        ∃ rest, (times count s).Accepts data middle rest next ∧ as = a :: rest := by
  have hpure : ∀ (a : α) (rest : List α) (last : Int),
      (Pure.pure (a :: rest) : Scan (List α)).Accepts data last as next ↔
        a :: rest = as ∧ last = next := by
    intro a rest last
    exact and_congr_left' ⟨Except.ok.inj, congrArg Except.ok⟩
  simp only [times_succ, accepts_bind_iff, hpure]
  constructor
  · intro h
    obtain ⟨a, middle, ha, rest, _, hrest, rfl, rfl⟩ := h
    exact ⟨a, middle, ha, rest, hrest, rfl⟩
  · intro h
    obtain ⟨a, middle, ha, rest, hrest, rfl⟩ := h
    exact ⟨a, middle, ha, rest, next, hrest, rfl, rfl⟩

theorem Unending.bind {s : Scan α} {k : α → Scan β} (hs : s.Unending) (hk : ∀ a, (k a).Unending) :
    (s >>= k).Unending := by
  intro data offset e he
  cases hresult : (s data offset).result with
  | error f =>
    rw [result_bind_of_error hresult] at he
    cases he
    exact hs data offset e hresult
  | ok a =>
    have haccepts : s.Accepts data offset a (s data offset).offset := ⟨hresult, rfl⟩
    rw [haccepts.run_bind k] at he
    exact hk a data _ e he

theorem Unending.times {s : Scan α} (hs : s.Unending) (count : Nat) : (times count s).Unending := by
  induction count with
  | zero => exact fun _ _ _ h => by cases h
  | succ count ih => exact hs.bind fun a => ih.bind fun rest _ _ _ h => by cases h

namespace Inner

theorem bind {s : Scan α} {k : α → Scan β} (hs : s.Inner) (hk : ∀ a, (k a).Inner) :
    (s >>= k).Inner where
  silent data offset := by
    cases hresult : (s data offset).result with
    | error f => rw [notes_bind_of_error hresult, hs.silent]
    | ok a =>
      have haccepts : s.Accepts data offset a (s data offset).offset := ⟨hresult, rfl⟩
      rw [hs.silent.run_bind haccepts, (hk a).silent]
  unending := hs.unending.bind fun a => (hk a).unending

theorem liftResult {r : Except Fault α}
    (h : ∀ e, r = .error (.decode e) → e.kind ≠ .trailingData) : (liftResult r).Inner :=
  ⟨fun _ _ => rfl, fun _ _ => h⟩

theorem pure (a : α) : (Pure.pure a : Scan α).Inner := ⟨fun _ _ => rfl, fun _ _ _ h => by cases h⟩

theorem fail {f : Fault} (h : ∀ e, f = .decode e → e.kind ≠ .trailingData) :
    (fail f : Scan α).Inner :=
  liftResult fun e he => h e (Except.error.inj he)

theorem failAt (offset : Int) {cause : Cause}
    (h : (⟨cause, offset⟩ : DecodeError).kind ≠ .trailingData) :
    (failAt offset cause : Scan α).Inner :=
  fail fun _ he => Fault.decode.inj he ▸ h

theorem position : position.Inner := ⟨fun _ _ => rfl, fun _ _ _ h => by cases h⟩

theorem buffer : buffer.Inner := ⟨fun _ _ => rfl, fun _ _ _ h => by cases h⟩

theorem remaining : remaining.Inner := ⟨fun _ _ => rfl, fun _ _ _ h => by cases h⟩

theorem moveBy (n : Int) : (moveBy n).Inner := ⟨fun _ _ => rfl, fun _ _ _ h => by cases h⟩

theorem peek (size : Int) : (peek size).Inner := ⟨fun _ _ => rfl, fun _ _ _ h => by cases h⟩

theorem times {s : Scan α} (hs : s.Inner) (count : Nat) : (times count s).Inner := by
  induction count with
  | zero => exact pure []
  | succ count ih => exact hs.bind fun a => ih.bind fun rest => pure (a :: rest)

end Inner

/-! ### Reads -/

theorem inner_require (size : Int) (field : Option Text) : (require size field).Inner := by
  refine .bind .remaining fun left => .bind .position fun offset => ?_
  split
  · exact .failAt _ (by simp [DecodeError.kind])
  · exact .pure ()

theorem inner_skip (size : Int) (field : Option Text) : (skip size field).Inner :=
  .bind (inner_require size field) fun _ => .moveBy size

theorem inner_readBytes (size : Int) (field : Option Text) : (readBytes size field).Inner :=
  .bind (inner_require size field) fun _ => .bind (.peek size) fun found =>
    .bind (.moveBy size) fun _ => .pure found

theorem kind_of_checkSpan {data : Bytes} {offset size : Int} {purpose : Text} {field : Option Text}
    {e : DecodeError} (h : data.checkSpan offset size purpose field = .error e) :
    e.kind ≠ .trailingData := by
  unfold Bytes.checkSpan at h
  split at h
  · cases h
    simp [DecodeError.kind]
  · cases h

theorem inner_liftSpan {data : Bytes} {offset size : Int} {purpose : Text} {field : Option Text}
    (f : Unit → α) : (liftResult
      (((data.checkSpan offset size purpose field).map f).mapError Fault.decode)).Inner := by
  refine .liftResult fun e he => ?_
  cases hspan : data.checkSpan offset size purpose field with
  | error e' =>
    rw [hspan] at he
    cases he
    exact kind_of_checkSpan hspan
  | ok u =>
    rw [hspan] at he
    cases he

theorem inner_peekNumber (size : Int) (field : Option Text) : (peekNumber size field).Inner :=
  .bind .buffer fun _ => .bind .position fun _ => inner_liftSpan _

theorem inner_readU8 (field : Option Text) : (readU8 field).Inner :=
  .bind (inner_peekNumber 1 field) fun n => .bind (.moveBy 1) fun _ => .pure n

theorem inner_readU32 (field : Option Text) : (readU32 field).Inner :=
  .bind (inner_peekNumber 4 field) fun n => .bind (.moveBy 4) fun _ => .pure n

theorem inner_readDouble (field : Option Text) : (readDouble field).Inner :=
  .bind .buffer fun _ => .bind .position fun _ => .bind (inner_liftSpan _) fun x =>
    .bind (.moveBy 8) fun _ => .pure x

theorem inner_readSize (width : Int) (field : Option Text) : (readSize width field).Inner := by
  unfold readSize
  split
  · exact .fail fun e h => by cases h
  · refine .bind .position fun start => .bind (inner_peekNumber _ field) fun size => ?_
    split
    · exact .failAt _ (by simp [DecodeError.kind])
    · exact .bind (.moveBy _) fun _ => .pure size

/-! ### Strings, constants and the header -/

theorem inner_textOf (read : TextReader) (start : Int) (field : Text) (payload : Bytes) :
    (textOf read start field payload).Inner := by
  unfold textOf
  split
  · exact .pure _
  · exact .failAt _ (by simp [DecodeError.kind])
  · exact .fail fun e h => by cases h

theorem inner_readString (width : Int) (read : TextReader) (field : Text) :
    (readString width read field).Inner := by
  refine .bind .position fun start => .bind (inner_readSize width _) fun size => ?_
  unfold readContent
  split
  · exact .pure none
  · exact .bind (inner_readBytes size _) fun content =>
      .bind (inner_textOf read _ field content.dropLast) fun text => .pure (some text)

theorem inner_skipString (width : Int) (field : Text) : (skipString width field).Inner :=
  .bind (inner_readSize width _) fun size => inner_skip size _

theorem inner_readConstant (width : Int) (read : TextReader) :
    (readConstant width read).Inner := by
  refine .bind .position fun start => .bind (inner_readU8 _) fun tag => ?_
  unfold readValue
  split
  · exact .pure Constant.nil
  · exact .bind (inner_readU8 _) fun n => .pure (Constant.boolean (n != 0))
  · exact .bind (inner_readDouble _) fun x => .pure (Constant.number x)
  · exact .bind (inner_readString width read _) fun text => .pure (Constant.string text)
  · exact .failAt _ (by simp [DecodeError.kind])

theorem inner_readHeaderByte (field : Header.Field) : (readHeaderByte field).Inner := by
  refine .bind .position fun start => .bind (inner_readU8 _) fun found => ?_
  split
  · exact .pure found
  · exact .failAt _ (by simp [DecodeError.kind])

theorem inner_readDialect : readDialect.Inner :=
  .bind (inner_readHeaderByte _) fun _ => .bind (inner_readHeaderByte _) fun _ =>
    .bind (inner_readHeaderByte _) fun _ => .bind (inner_readHeaderByte _) fun _ =>
    .bind (inner_readHeaderByte _) fun _ => .bind (inner_readHeaderByte _) fun _ =>
    .bind (inner_readHeaderByte _) fun _ => .bind (inner_readHeaderByte _) fun _ => .pure _

end LuaBytecode.Scan
