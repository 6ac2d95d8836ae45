import LuaBytecode.Fault
import LuaBytecode.Note

/-!
# Scans over a byte string

A scan reads from a fixed byte string at an offset. Whether it succeeds or fails, it leaves an
offset and the notes it took, so that reading can go on after a failure from where the failed scan
stood. The offset may lie outside the string: then there is nothing to read.
-/

namespace LuaBytecode

structure Scanned (α : Type) where
  result : Except Fault α
  offset : Int
  notes : List Note

def Scan (α : Type) := (data : Bytes) → (offset : Int) → Scanned α

namespace Scan

variable {α β : Type}

def pure (a : α) : Scan α := fun _ offset => ⟨.ok a, offset, []⟩

def fail (f : Fault) : Scan α := fun _ offset => ⟨.error f, offset, []⟩

/-- One scan after another: what fails ends the whole. -/
def bind (s : Scan α) (next : α → Scan β) : Scan β := fun data offset =>
  match s data offset with
  | ⟨.ok a, middle, notes⟩ =>
    let r := next a data middle
    ⟨r.result, r.offset, notes ++ r.notes⟩
  | ⟨.error f, middle, notes⟩ => ⟨.error f, middle, notes⟩

instance : Monad Scan where
  pure := pure
  bind := bind

theorem bind_eq (s : Scan α) (next : α → Scan β) : s >>= next = s.bind next := rfl

theorem bind_of_ok {s : Scan α} {data : Bytes} {offset middle : Int} {a : α} {notes : List Note}
    (h : s data offset = ⟨.ok a, middle, notes⟩) (next : α → Scan β) :
    (s >>= next) data offset =
      ⟨(next a data middle).result, (next a data middle).offset,
        notes ++ (next a data middle).notes⟩ := by
  simp only [bind_eq, bind, h]

theorem bind_of_error {s : Scan α} {data : Bytes} {offset middle : Int} {f : Fault}
    {notes : List Note} (h : s data offset = ⟨.error f, middle, notes⟩) (next : α → Scan β) :
    (s >>= next) data offset = ⟨.error f, middle, notes⟩ := by
  simp only [bind_eq, bind, h]

instance : LawfulMonad Scan := by
  refine LawfulMonad.mk' Scan ?_ ?_ ?_
  · intro α s
    funext data offset
    rcases h : s data offset with ⟨_ | _, _, _⟩ <;> simp [Functor.map, bind, pure, h]
  · intro α β a next
    funext data offset
    simp [Bind.bind, Pure.pure, bind, pure]
  · intro α β γ s f g
    funext data offset
    rcases h : s data offset with ⟨fault | a, middle, notes⟩
    · simp [Bind.bind, bind, h]
    · rcases hf : f a data middle with ⟨_ | _, _, _⟩ <;> simp [Bind.bind, bind, h, hf]

def failAt (offset : Int) (cause : Cause) : Scan α := fail (.decode ⟨cause, offset⟩)

def position : Scan Int := fun _ offset => ⟨.ok offset, offset, []⟩

def buffer : Scan Bytes := fun data offset => ⟨.ok data, offset, []⟩

def moveBy (n : Int) : Scan Unit := fun _ offset => ⟨.ok (), offset + n, []⟩

def takeNote (n : Note) : Scan Unit := fun _ offset => ⟨.ok (), offset, [n]⟩

/-- The same scan `count` times. -/
def times (count : Nat) (s : Scan α) : Scan (List α) :=
  match count with
  | 0 => pure []
  | count + 1 => bind s fun a => bind (times count s) fun rest => pure (a :: rest)

def liftResult (r : Except Fault α) : Scan α := fun _ offset => ⟨r, offset, []⟩

end Scan

end LuaBytecode
