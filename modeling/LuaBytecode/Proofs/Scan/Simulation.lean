import LuaBytecode.Proofs.Scan.Reading
import Mathlib.Data.List.Forall2

/-!
# Relations between scans

Two runs are compared through a relation between scans, given for each relation between their
values. Whatever the relation says, it is of use if the combinators keep it and if the reads stand
in it to themselves: it then carries over to all that is built from reads, so that a decoder is
taken apart once for all comparisons.
-/

namespace LuaBytecode

open Scan in
/-- A relation between scans that the combinators keep and in which the reads stand to themselves. A
failure stands to itself if it is about what a byte says; failures for want of bytes and those of
texts belong to the reads and to the readers of texts. -/
structure Simulation where
  Rel : {α β : Type} → (α → β → Prop) → Scan α → Scan β → Prop
  pure : ∀ {α β : Type} {R : α → β → Prop} {a : α} {b : β}, R a b →
    Rel R (Pure.pure a) (Pure.pure b)
  bind : ∀ {α β γ δ : Type} {R : α → β → Prop} {S : γ → δ → Prop} {s : Scan α} {t : Scan β}
    {k : α → Scan γ} {l : β → Scan δ}, Rel R s t → (∀ a b, R a b → Rel S (k a) (l b)) →
      Rel S (s >>= k) (t >>= l)
  failAt : ∀ {α β : Type} {R : α → β → Prop} (offset : Int) {cause : Cause},
    (⟨cause, offset⟩ : DecodeError).kind ∉ [.truncatedInput, .invalidString] →
      Rel R (failAt offset cause) (failAt offset cause)
  position : Rel Eq position position
  takeNote : ∀ n n' : Note, Rel Eq (takeNote n) (takeNote n')
  takes : ∀ {α : Type} {s : Scan α} {purpose : Text} {field : Option Text} {size : Nat}
    {f : Bytes → α}, s.Takes purpose field size f →
      Rel (fun a b => ∃ word : Bytes, word.length = size ∧ a = f word ∧ b = f word) s s
  readSize : ∀ (w : SizeWidth) (field : Option Text),
    Rel Eq (readSize w.bytes field) (readSize w.bytes field)

namespace Simulation

open Scan

variable {α β γ δ : Type} (sim : Simulation)

theorem bind_eq {S : γ → δ → Prop} {s t : Scan α} {k : α → Scan γ} {l : α → Scan δ}
    (hfirst : sim.Rel Eq s t) (hnext : ∀ a, sim.Rel S (k a) (l a)) :
    sim.Rel S (s >>= k) (t >>= l) := by
  apply sim.bind hfirst
  intro a b hab
  subst hab
  exact hnext a

theorem takes_eq {s : Scan α} {purpose : Text} {field : Option Text} {size : Nat} {f : Bytes → α}
    (hs : s.Takes purpose field size f) : sim.Rel Eq s s := by
  have hword : sim.Rel Eq (s >>= Pure.pure) (s >>= Pure.pure) := by
    apply sim.bind (sim.takes hs)
    intro a b hword
    obtain ⟨word, _, rfl, rfl⟩ := hword
    exact sim.pure rfl
  rwa [bind_pure] at hword

theorem times {R : α → β → Prop} {s : Scan α} {t : Scan β} (h : sim.Rel R s t) (count : Nat) :
    sim.Rel (List.Forall₂ R) (times count s) (times count t) := by
  induction count with
  | zero => exact sim.pure .nil
  | succ count ih =>
    apply sim.bind h
    intro a b hab
    apply sim.bind ih
    intro as bs hall
    exact sim.pure (.cons hab hall)

end Simulation

end LuaBytecode
