import LuaBytecode.Proofs.Scan.Simulation

/-!
# Scans of a buffer that goes on

What a scan does in a buffer it does in every longer one: it returns the same value at the same
offset, or fails with the same fault. Only where it stops for want of bytes can more bytes help. It
then stops in the same place as long as there are too few of them, and says by how many fewer it is
short.
-/

namespace LuaBytecode

/-- What was asked for where a scan stops for want of bytes: a read of so many, or records that have
so many at least. -/
inductive Shortage where
  | read (purpose : Text) (field : Option Text) (needed : Nat)
  | records (field : Text) (count needed : Nat)

namespace Shortage

def needed : Shortage → Nat
  | .read _ _ needed => needed
  | .records _ _ needed => needed

def field : Shortage → Option Text
  | .read _ field _ => field
  | .records field _ _ => some field

/-- The error of a shortage that is met at `start`, where so many bytes are available. -/
def error (s : Shortage) (available start : Nat) : DecodeError :=
  match s with
  | .read purpose field needed => ⟨.shortRead purpose field needed available, start⟩
  | .records field count needed => ⟨.shortRecords field count needed available, start⟩

variable (s : Shortage) (available start : Nat)

@[simp]
theorem kind_error : (s.error available start).kind = .truncatedInput := by
  cases s <;> rfl

@[simp]
theorem offset_error : (s.error available start).offset = start := by
  cases s <;> rfl

@[simp]
theorem field_error : (s.error available start).field = s.field := by
  cases s <;> rfl

@[simp]
theorem expected_error : (s.error available start).expected = some (.number s.needed) := by
  cases s <;> rfl

@[simp]
theorem actual_error : (s.error available start).actual = some (.number available) := by
  cases s <;> rfl

end Shortage

namespace Scan

variable {α β γ δ : Type} {R : α → β → Prop} {S : γ → δ → Prop} {before after : Bytes}

/-- What a scan leaves that is started before `after`, beside what another leaves where `after` is
followed by more bytes. -/
inductive Lengthened (R : α → β → Prop) (before after : Bytes) :
    Scanned α → (Bytes → Scanned β) → Prop
  | ok {a : α} {b : β} {word rest : Bytes} {notes : List Note} {r' : Bytes → Scanned β}
      (hafter : after = word ++ rest) (hvalue : R a b)
      (hlong : ∀ more, (r' more).result = .ok b ∧ (r' more).offset = (before ++ word).length) :
      Lengthened R before after ⟨.ok a, (before ++ word).length, notes⟩ r'
  | error {f : Fault} {offset : Int} {notes : List Note} {r' : Bytes → Scanned β}
      (hfault : ∀ e, f = .decode e → e.kind ≠ .truncatedInput)
      (hlong : ∀ more, (r' more).result = .error f) :
      Lengthened R before after ⟨.error f, offset, notes⟩ r'
  | short (s : Shortage) (available start : Nat) {offset : Int} {notes : List Note}
      {r' : Bytes → Scanned β} (hshort : available < s.needed)
      (hstart : start ≤ (before ++ after).length)
      (hlong : ∀ more : Bytes, available + more.length < s.needed →
        (r' more).result = .error (.decode (s.error (available + more.length) start))) :
      Lengthened R before after ⟨.error (.decode (s.error available start)), offset, notes⟩ r'

def LastsAt (R : α → β → Prop) (s : Scan α) (t : Scan β) (before after : Bytes) : Prop :=
  Lengthened R before after (s (before ++ after) before.length)
    fun more => t (before ++ (after ++ more)) before.length

/-- What the first scan does the second does also where the buffer goes on. -/
def Lasting (R : α → β → Prop) (s : Scan α) (t : Scan β) : Prop :=
  ∀ before after : Bytes, LastsAt R s t before after

/-- What holds after the first scan holds also seen from where the first scan started. -/
theorem Lengthened.after_word {word rest : Bytes} {r : Scanned γ} {q q' : Bytes → Scanned δ}
    (h : Lengthened S (before ++ word) rest r q) (notes : List Note)
    (hq : ∀ more, (q' more).result = (q more).result ∧ (q' more).offset = (q more).offset) :
    Lengthened S before (word ++ rest) ⟨r.result, r.offset, notes ++ r.notes⟩ q' := by
  cases h with
  | ok hafter hvalue hlong =>
    subst hafter
    rw [List.append_assoc before] at hlong ⊢
    refine .ok (List.append_assoc word _ _).symm hvalue fun more => ?_
    rw [(hq more).1, (hq more).2]
    exact hlong more
  | error hfault hlong =>
    refine .error hfault fun more => ?_
    rw [(hq more).1]
    exact hlong more
  | short s available start hshort hstart hlong =>
    refine .short s available start hshort ?_ fun more hmore => ?_
    · rwa [← List.append_assoc]
    · rw [(hq more).1]
      exact hlong more hmore

theorem LastsAt.bind {s : Scan α} {t : Scan β} {k : α → Scan γ} {l : β → Scan δ}
    (hfirst : LastsAt R s t before after)
    (hnext : ∀ a b word rest, after = word ++ rest → R a b →
      LastsAt S (k a) (l b) (before ++ word) rest) :
    LastsAt S (s >>= k) (t >>= l) before after := by
  unfold LastsAt at hfirst ⊢
  generalize hs : s (before ++ after) before.length = r at hfirst
  cases hfirst with
  | @ok a b word rest notes _ hafter hvalue hlong =>
    have hrest := hnext a b word rest hafter hvalue
    subst hafter
    rw [bind_of_ok hs, ← List.append_assoc]
    refine hrest.after_word notes fun more => ?_
    have hmiddle : before ++ (word ++ rest ++ more) = before ++ word ++ (rest ++ more) := by
      simp only [List.append_assoc]
    rw [← hmiddle]
    exact Accepts.bind (hlong more) l
  | error hfault hlong =>
    rw [bind_of_error hs]
    exact .error hfault fun more => result_bind_of_error (hlong more) l
  | short s available start hshort hstart hlong =>
    rw [bind_of_error hs]
    exact .short s available start hshort hstart
      fun more hmore => result_bind_of_error (hlong more hmore) l

theorem Lasting.bind {s : Scan α} {t : Scan β} {k : α → Scan γ} {l : β → Scan δ}
    (hfirst : Lasting R s t) (hnext : ∀ a b, R a b → Lasting S (k a) (l b)) :
    Lasting S (s >>= k) (t >>= l) :=
  fun before after => (hfirst before after).bind
    fun a b word rest _ hab => hnext a b hab (before ++ word) rest

/-- After a scan that stays where it is the next one starts in the same place. -/
theorem LastsAt.bind_stay {s : Scan α} {t : Scan β} {k : α → Scan γ} {l : β → Scan δ} {a : α}
    {b : β} {notes : List Note}
    (hs : s (before ++ after) before.length = ⟨.ok a, before.length, notes⟩)
    (ht : ∀ more, t.Accepts (before ++ (after ++ more)) before.length b before.length)
    (hnext : LastsAt S (k a) (l b) before after) : LastsAt S (s >>= k) (t >>= l) before after := by
  have hmoved : Lengthened S (before ++ []) after (k a (before ++ after) before.length)
      fun more => l b (before ++ (after ++ more)) before.length := by
    rwa [List.append_nil]
  rw [LastsAt, bind_of_ok hs]
  exact hmoved.after_word notes fun more => (ht more).bind l

/-- A scan that stays where it is, with a value that does not depend on what follows. -/
theorem LastsAt.stay {s : Scan α} {t : Scan β} {a : α} {b : β} {notes : List Note} (hab : R a b)
    (hs : s (before ++ after) before.length = ⟨.ok a, before.length, notes⟩)
    (ht : ∀ more, t.Accepts (before ++ (after ++ more)) before.length b before.length) :
    LastsAt R s t before after := by
  have hstay : Lengthened R before after ⟨.ok a, (before ++ []).length, notes⟩
      fun more => t (before ++ (after ++ more)) before.length :=
    .ok (List.nil_append after).symm hab fun more => by rw [List.append_nil]; exact ht more
  rwa [List.append_nil, ← hs] at hstay

theorem Lasting.pure {a : α} {b : β} (h : R a b) : Lasting R (Pure.pure a) (Pure.pure b) :=
  fun _ _ => .stay h rfl fun _ => ⟨rfl, rfl⟩

theorem Lasting.fail {f : Fault} (h : ∀ e, f = .decode e → e.kind ≠ .truncatedInput) :
    Lasting R (fail f) (fail f) :=
  fun _ _ => .error h fun _ => rfl

theorem Lasting.failAt (offset : Int) {cause : Cause}
    (h : (⟨cause, offset⟩ : DecodeError).kind ≠ .truncatedInput) :
    Lasting R (failAt offset cause) (failAt offset cause) := by
  apply Lasting.fail
  intro e he
  cases he
  exact h

/-- A read that finds too few bytes, and that asks for as many where the buffer goes on. -/
theorem LastsAt.short_read {s : Scan α} {t : Scan β} {purpose : Text} {field : Option Text}
    {size : Nat} (hsize : ¬size ≤ after.length)
    (hs : s (before ++ after) before.length =
      ⟨.error (.decode ⟨.shortRead purpose field size after.length, before.length⟩),
        before.length, []⟩)
    (ht : ∀ more : Bytes, ¬size ≤ (after ++ more).length →
      (t (before ++ (after ++ more)) before.length).result =
        .error (.decode ⟨.shortRead purpose field size (after ++ more).length, before.length⟩)) :
    LastsAt R s t before after := by
  rw [LastsAt, hs]
  refine .short (.read purpose field size) after.length before.length ?_ ?_ fun more hmore => ?_
  · exact Nat.lt_of_not_le hsize
  · exact (List.prefix_append before after).length_le
  · rw [← List.length_append] at hmore ⊢
    exact ht more (Nat.not_le_of_lt hmore)

theorem Takes.lasting {s : Scan α} {purpose : Text} {field : Option Text} {size : Nat}
    {f : Bytes → α} (h : s.Takes purpose field size f) :
    Lasting (fun a b => ∃ word : Bytes, word.length = size ∧ a = f word ∧ b = f word) s s := by
  intro before after
  by_cases hsize : size ≤ after.length
  · rw [LastsAt, h, if_pos hsize, offset_after_take before hsize]
    refine .ok (List.take_append_drop size after).symm
      ⟨_, List.length_take_of_le hsize, rfl, rfl⟩ fun more => ?_
    rw [h, if_pos (by rw [List.length_append]; omega), List.take_append_of_le_length hsize]
    exact ⟨rfl, offset_after_take before hsize⟩
  · refine .short_read hsize (by rw [h, if_neg hsize]) fun more hmore => ?_
    rw [h, if_neg hmore]

theorem Lasting.readSize (w : SizeWidth) (field : Option Text) :
    Lasting Eq (readSize w.bytes field) (readSize w.bytes field) := by
  intro before after
  by_cases hsize : w.bytes ≤ after.length
  · have hlong : ∀ more : Bytes, w.bytes ≤ (after ++ more).length := by
      intro more
      rw [List.length_append]
      omega
    have htake : ∀ more : Bytes, (after ++ more).take w.bytes = after.take w.bytes := fun more =>
      List.take_append_of_le_length hsize
    rw [LastsAt, readSize_append, if_pos hsize]
    by_cases hmax : maxSize < Bytes.littleEndian (after.take w.bytes)
    · rw [if_pos hmax]
      refine .error (fun e he => ?_) fun more => ?_
      · cases he
        simp [DecodeError.kind]
      · rw [readSize_append, if_pos (hlong more), htake, if_pos hmax]
    · rw [if_neg hmax, offset_after_take before hsize]
      refine .ok (List.take_append_drop w.bytes after).symm rfl fun more => ?_
      rw [readSize_append, if_pos (hlong more), htake, if_neg hmax]
      exact ⟨rfl, offset_after_take before hsize⟩
  · refine .short_read hsize (by rw [readSize_append, if_neg hsize]) fun more hmore => ?_
    rw [readSize_append, if_neg hmore]

/-- The relation of scans to what they do in longer buffers. -/
def Lasting.simulation : Simulation where
  Rel := Lasting
  pure := Lasting.pure
  bind := Lasting.bind
  failAt offset _ h := Lasting.failAt offset fun hkind => h (by simp [hkind])
  position _ _ := .stay rfl rfl fun _ => ⟨rfl, rfl⟩
  takeNote _ _ _ _ := .stay rfl rfl fun _ => ⟨rfl, rfl⟩
  takes := Takes.lasting
  readSize := Lasting.readSize

end Scan

end LuaBytecode
