import LuaBytecode.Proofs.Scan.Reading

/-!
# What becomes of the bytes that are passed over

A tracked scan is a scan that also says of each byte it passes over what becomes of it: the byte is
kept, or it is discarded, or all that counts of it is whether it is zero. It is blind if that is the
truth: in every buffer that differs only as these roles allow, the scan does the same. A scan built
from blind parts is blind, since the bytes that a later part passes over lie after all that an
earlier part looks at.
-/

namespace LuaBytecode

inductive Role where
  | kept
  | discarded
  | truth
  deriving DecidableEq

/-- The second byte may stand in the place of the first. -/
def Role.Allows : Role → UInt8 → UInt8 → Prop
  | .kept, x, y => x = y
  | .discarded, _, _ => True
  | .truth, x, y => x = 0 ↔ y = 0

instance (role : Role) (x y : UInt8) : Decidable (role.Allows x y) :=
  match role with
  | .kept => inferInstanceAs (Decidable (x = y))
  | .discarded => isTrue trivial
  | .truth => inferInstanceAs (Decidable (x = 0 ↔ y = 0))

/-- The byte strings are of one length and differ only as the roles of their first bytes allow. -/
def Interchangeable : List Role → Bytes → Bytes → Prop
  | [], x, y => x = y
  | _ :: _, [], [] => True
  | role :: roles, a :: x, b :: y => role.Allows a b ∧ Interchangeable roles x y
  | _ :: _, _, _ => False

instance decidableInterchangeable :
    (roles : List Role) → (x y : Bytes) → Decidable (Interchangeable roles x y)
  | [], x, y => inferInstanceAs (Decidable (x = y))
  | _ :: _, [], [] => isTrue trivial
  | role :: roles, a :: x, b :: y =>
    have := decidableInterchangeable roles x y
    inferInstanceAs (Decidable (role.Allows a b ∧ Interchangeable roles x y))
  | _ :: _, [], _ :: _ => isFalse id
  | _ :: _, _ :: _, [] => isFalse id

theorem Scan.Takes.map {α β : Type} {s : Scan α} {purpose : Text} {field : Option Text} {size : Nat}
    {f : Bytes → α} (h : s.Takes purpose field size f) (g : α → β) :
    (g <$> s).Takes purpose field size (g ∘ f) := by
  intro before after
  have hrun := h before after
  rw [map_eq_pure_bind]
  by_cases hsize : size ≤ after.length
  · rw [if_pos hsize] at hrun ⊢
    exact Scan.bind_of_ok hrun _
  · rw [if_neg hsize] at hrun ⊢
    exact Scan.bind_of_error hrun _

namespace Interchangeable

variable {roles : List Role} {x y : Bytes}

theorem length_eq (h : Interchangeable roles x y) : y.length = x.length := by
  fun_induction Interchangeable roles x y with
  | case1 x y => rw [h]
  | case2 => rfl
  | case3 role roles a x b y ih => rw [List.length_cons, List.length_cons, ih h.2]
  | case4 => exact h.elim

theorem exists_append {front back : Bytes} {more : List Role} (hroles : roles.length = front.length)
    (h : Interchangeable (roles ++ more) (front ++ back) y) :
    ∃ front' back', y = front' ++ back' ∧ Interchangeable roles front front' ∧
      Interchangeable more back back' := by
  induction roles generalizing front y with
  | nil =>
    obtain rfl : front = [] := List.length_eq_zero_iff.mp hroles.symm
    exact ⟨[], y, rfl, rfl, h⟩
  | cons role roles ih =>
    cases front with
    | nil => cases hroles
    | cons a front =>
      cases y with
      | nil => exact h.elim
      | cons b y =>
        obtain ⟨front', back', rfl, hfront, hback⟩ := ih (Nat.succ.inj hroles) h.2
        exact ⟨b :: front', back', rfl, ⟨h.1, hfront⟩, hback⟩

theorem eq_of_kept {n : Nat} (h : Interchangeable (List.replicate n .kept) x y) : y = x := by
  induction n generalizing x y with
  | zero => exact h.symm
  | succ n ih =>
    cases x with
    | nil => exact List.length_eq_zero_iff.mp h.length_eq
    | cons a x =>
      cases y with
      | nil => exact h.elim
      | cons b y =>
        obtain ⟨hhead, htail⟩ := h
        rw [ih htail, hhead]

theorem allows {i : Nat} {a b : UInt8} (h : Interchangeable roles x y) (ha : x[i]? = some a)
    (hb : y[i]? = some b) : (roles[i]?.getD Role.kept).Allows a b := by
  fun_induction Interchangeable roles x y generalizing i with
  | case1 x y =>
    subst h
    exact Option.some.inj (ha.symm.trans hb)
  | case2 => cases ha
  | case3 role roles c x d y ih =>
    cases i with
    | zero =>
      cases ha
      cases hb
      exact h.1
    | succ i => exact ih h.2 ha hb
  | case4 => exact h.elim

theorem of_allows (hlength : y.length = x.length)
    (h : ∀ (i : Nat) (a b : UInt8), x[i]? = some a → y[i]? = some b →
      (roles[i]?.getD Role.kept).Allows a b) :
    Interchangeable roles x y := by
  induction roles generalizing x y with
  | nil =>
    apply List.ext_getElem hlength.symm
    intro i hx hy
    exact h i _ _ (List.getElem?_eq_getElem hx) (List.getElem?_eq_getElem hy)
  | cons role roles ih =>
    cases x with
    | nil =>
      obtain rfl : y = [] := List.length_eq_zero_iff.mp hlength
      trivial
    | cons a x =>
      cases y with
      | nil => cases hlength
      | cons b y =>
        refine ⟨h 0 a b rfl rfl, ih (Nat.succ.inj hlength) ?_⟩
        intro i c d hc hd
        exact h (i + 1) c d hc hd

end Interchangeable

structure Tracked (α : Type) where
  scan : Scan α
  roles : (data : Bytes) → (offset : Int) → List Role

namespace Tracked

variable {α β : Type}

/-- Every byte that the scan passes over has the one role. -/
def all (role : Role) (s : Scan α) : Tracked α where
  scan := s
  roles data offset := List.replicate ((s data offset).offset - offset).toNat role

def terminated : (size : Nat) → List Role
  | 0 => []
  | size + 1 => List.replicate size .kept ++ [.discarded]

/-- Every byte that the scan passes over is kept, but for the last. -/
def allButLast (s : Scan α) : Tracked α where
  scan := s
  roles data offset := terminated ((s data offset).offset - offset).toNat

def bind (m : Tracked α) (k : α → Tracked β) : Tracked β where
  scan := m.scan >>= fun a => (k a).scan
  roles data offset := m.roles data offset ++
    match m.scan data offset with
    | ⟨.ok a, middle, _⟩ => (k a).roles data middle
    | ⟨.error _, _, _⟩ => []

instance : Monad Tracked where
  pure a := all .kept (Pure.pure a)
  bind := bind

def times (count : Nat) (m : Tracked α) : Tracked (List α) :=
  match count with
  | 0 => Pure.pure []
  | count + 1 => do
    let a ← m
    let rest ← times count m
    return a :: rest

theorem scan_bind (m : Tracked α) (k : α → Tracked β) :
    (m >>= k).scan = m.scan >>= fun a => (k a).scan := rfl

theorem scan_times (count : Nat) (m : Tracked α) :
    (times count m).scan = Scan.times count m.scan := by
  induction count with
  | zero => rfl
  | succ count ih =>
    rw [times, Scan.times, scan_bind]
    simp only [scan_bind, ih]
    rfl

/-! ### Blind scans -/

/-- What a run leaves that is started before `after`, and leaves again where bytes are exchanged as
the roles allow. Where it succeeds the bytes after those it passed over have no part in it, but for
their number. -/
inductive Unmoved (before after : Bytes) (roles : List Role) (run : Bytes → Bytes → Scanned α) :
    Scanned α → Prop
  | ok {a : α} {word rest : Bytes} {notes : List Note} (hafter : after = word ++ rest)
      (hroles : roles.length = word.length)
      (hsame : ∀ before' word' rest' : Bytes, before'.length = before.length →
        Interchangeable roles word word' → rest'.length = rest.length →
          (run before' (word' ++ rest')).result = .ok a ∧
            (run before' (word' ++ rest')).offset = (before ++ word).length) :
      Unmoved before after roles run ⟨.ok a, (before ++ word).length, notes⟩
  | error {f : Fault} {offset : Int} {notes : List Note}
      (hsame : ∀ before' after' : Bytes, before'.length = before.length →
        Interchangeable roles after after' → (run before' after').result = .error f) :
      Unmoved before after roles run ⟨.error f, offset, notes⟩

def BlindAt (m : Tracked α) (before after : Bytes) : Prop :=
  Unmoved before after (m.roles (before ++ after) before.length)
    (fun before' after' => m.scan (before' ++ after') before'.length)
    (m.scan (before ++ after) before.length)

/-- The roles that the scan gives the bytes are true of it. -/
def Blind (m : Tracked α) : Prop := ∀ before after : Bytes, m.BlindAt before after

theorem BlindAt.bind {m : Tracked α} {k : α → Tracked β} {before after : Bytes}
    (hm : m.BlindAt before after) (hk : ∀ a, (k a).Blind) : (m >>= k).BlindAt before after := by
  unfold BlindAt at hm ⊢
  have hroles : (m >>= k).roles (before ++ after) before.length =
      m.roles (before ++ after) before.length ++
        match m.scan (before ++ after) before.length with
        | ⟨.ok a, middle, _⟩ => (k a).roles (before ++ after) middle
        | ⟨.error _, _, _⟩ => [] := rfl
  rw [hroles]
  simp only [scan_bind]
  generalize hfirst : m.scan (before ++ after) before.length = r at hm
  generalize m.roles (before ++ after) before.length = roles at hm
  cases hm with
  | @ok a word rest notes hafter hlength hsame =>
    subst hafter
    have hnext := hk a (before ++ word) rest
    rw [Scan.bind_of_ok hfirst]
    unfold BlindAt at hnext
    rw [List.append_assoc] at hnext
    simp only
    generalize (k a).scan (before ++ (word ++ rest)) (before ++ word).length = r at hnext
    generalize (k a).roles (before ++ (word ++ rest)) (before ++ word).length = more at hnext
    cases hnext with
    | @ok b word₂ rest₂ notes₂ hafter hlength₂ hsame₂ =>
      subst hafter
      have hroles : (roles ++ more).length = (word ++ word₂).length := by
        rw [List.length_append, List.length_append, hlength, hlength₂]
      rw [List.append_assoc before]
      refine .ok (List.append_assoc word _ _).symm hroles fun before' both rest' hbefore hboth
        hrest => ?_
      obtain ⟨word', word₂', rfl, hword, hword₂⟩ := hboth.exists_append hlength
      have hmiddle : (before' ++ word').length = (before ++ word).length := by
        rw [List.length_append, List.length_append, hbefore, hword.length_eq]
      have hfirst' := hsame before' word' (word₂' ++ rest') hbefore hword
        (by rw [List.length_append, List.length_append, hrest, hword₂.length_eq])
      have hsecond' := hsame₂ (before' ++ word') word₂' rest' hmiddle hword₂ hrest
      have hrun := Scan.Accepts.bind hfirst' fun a => (k a).scan
      rw [List.append_assoc before', hmiddle] at hsecond'
      rw [List.append_assoc word', hrun.1, hrun.2, ← List.append_assoc before]
      exact hsecond'
    | error hsame₂ =>
      refine .error fun before' after' hbefore hafter => ?_
      obtain ⟨word', rest', rfl, hword, hrest⟩ := hafter.exists_append hlength
      have hmiddle : (before' ++ word').length = (before ++ word).length := by
        rw [List.length_append, List.length_append, hbefore, hword.length_eq]
      have hfirst' := hsame before' word' rest' hbefore hword hrest.length_eq
      have hsecond' := hsame₂ (before' ++ word') rest' hmiddle hrest
      have hrun := Scan.Accepts.bind hfirst' fun a => (k a).scan
      rw [List.append_assoc before', hmiddle] at hsecond'
      rw [hrun.1]
      exact hsecond'
  | error hsame =>
    rw [Scan.bind_of_error hfirst]
    refine .error fun before' after' hbefore hafter => ?_
    rw [List.append_nil] at hafter
    exact Scan.result_bind_of_error (hsame before' after' hbefore hafter) _

theorem Blind.bind {m : Tracked α} {k : α → Tracked β} (hm : m.Blind) (hk : ∀ a, (k a).Blind) :
    (m >>= k).Blind :=
  fun before after => (hm before after).bind hk

theorem BlindAt.stay {before after : Bytes} {s : Scan α} (role : Role) {a : α} {notes : List Note}
    (h : ∀ before' after' : Bytes, before'.length = before.length → after'.length = after.length →
      s (before' ++ after') before'.length = ⟨.ok a, before'.length, notes⟩) :
    (all role s).BlindAt before after := by
  have hself := h before after rfl rfl
  have hroles : (all role s).roles (before ++ after) before.length = [] := by
    simp only [all, hself, Int.sub_self]
    rfl
  have hstay : Unmoved before after [] (fun before' after' => s (before' ++ after') before'.length)
      ⟨.ok a, (before ++ []).length, notes⟩ := by
    refine .ok (List.nil_append after).symm rfl fun before' word' rest' hbefore hword hrest => ?_
    subst hword
    rw [List.nil_append, h before' rest' hbefore hrest, hbefore, List.append_nil]
    exact ⟨rfl, rfl⟩
  unfold BlindAt
  rw [hroles]
  rw [List.append_nil, ← hself] at hstay
  exact hstay

theorem blind_pure (a : α) : (Pure.pure a : Tracked α).Blind :=
  fun _ _ => .stay .kept fun _ _ _ _ => rfl

theorem blind_position (role : Role) : (all role Scan.position).Blind :=
  fun before _ => .stay (a := (before.length : Int)) role fun _ _ hbefore _ => by
    rw [hbefore]
    rfl

theorem blind_takeNote (n : Note) : (all .kept (Scan.takeNote n)).Blind :=
  fun _ _ => .stay .kept fun _ _ _ _ => rfl

theorem blind_fail (f : Fault) : (all .kept (Scan.fail f : Scan α)).Blind :=
  fun _ _ => .error fun _ _ _ _ => rfl

theorem Blind.times {m : Tracked α} (h : m.Blind) (count : Nat) : (times count m).Blind := by
  induction count with
  | zero => exact blind_pure []
  | succ count ih => exact h.bind fun a => ih.bind fun rest => blind_pure (a :: rest)

/-- A read that makes the same of all bytes which may stand in each other's place. -/
theorem blindAt_of_takes {s : Scan α} {purpose : Text} {field : Option Text} {size : Nat}
    {f : Bytes → α} (h : s.Takes purpose field size f) {m : Tracked α} {roles : List Role}
    (hscan : m.scan = s) (hlength : roles.length = size) {before after : Bytes}
    (hroles : m.roles (before ++ after) before.length = if size ≤ after.length then roles else [])
    (hf : ∀ word word' : Bytes, word.length = size → Interchangeable roles word word' →
      f word' = f word) :
    m.BlindAt before after := by
  unfold BlindAt
  rw [hscan, hroles, h before after]
  by_cases hsize : size ≤ after.length
  · have htake : (after.take size).length = size := List.length_take_of_le hsize
    rw [if_pos hsize, if_pos hsize, Scan.offset_after_take before hsize]
    refine .ok (List.take_append_drop size after).symm (hlength.trans htake.symm)
      fun before' word' rest' hbefore hword hrest => ?_
    have hword' : word'.length = size := hword.length_eq.trans htake
    have hfit : size ≤ (word' ++ rest').length := by
      rw [List.length_append]
      omega
    rw [h before' (word' ++ rest'), if_pos hfit, List.take_left' hword', hf _ word' htake hword,
      List.length_append, htake, hbefore]
    exact ⟨rfl, rfl⟩
  · rw [if_neg hsize, if_neg hsize]
    refine .error fun before' after' hbefore hafter => ?_
    rw [h before' after', hafter.length_eq, if_neg hsize, hbefore]

theorem passed_of_takes {s : Scan α} {purpose : Text} {field : Option Text} {size : Nat}
    {f : Bytes → α} (h : s.Takes purpose field size f) (before after : Bytes) :
    ((s (before ++ after) before.length).offset - before.length).toNat =
      if size ≤ after.length then size else 0 := by
  rw [h before after]
  split
  · simp only
    omega
  · simp only [Int.sub_self, Int.toNat_zero]

theorem blind_all_of_takes {s : Scan α} {purpose : Text} {field : Option Text} {size : Nat}
    {f : Bytes → α} (h : s.Takes purpose field size f) (role : Role)
    (hf : ∀ word word' : Bytes, word.length = size →
      Interchangeable (List.replicate size role) word word' → f word' = f word) :
    (all role s).Blind :=
  fun before after => blindAt_of_takes h rfl List.length_replicate
    (by simp only [all, passed_of_takes h before after]; split <;> rfl) hf

theorem blind_kept {s : Scan α} {purpose : Text} {field : Option Text} {size : Nat}
    {f : Bytes → α} (h : s.Takes purpose field size f) : (all .kept s).Blind :=
  blind_all_of_takes h .kept fun _ _ _ hword => by rw [hword.eq_of_kept]

theorem blind_skip (size : Nat) (field : Option Text) :
    (all .discarded (Scan.skip size field)).Blind :=
  blind_all_of_takes (Scan.takes_skip size field) .discarded fun _ _ _ _ => rfl

theorem blind_truth {s : Scan Nat} {purpose : Text} {field : Option Text}
    (h : s.Takes purpose field 1 Bytes.littleEndian) : (all .truth ((· != 0) <$> s)).Blind := by
  refine blind_all_of_takes (h.map (· != 0)) .truth fun word word' hlength hword => ?_
  obtain ⟨x, rfl⟩ := List.length_eq_one_iff.mp hlength
  obtain ⟨y, rfl⟩ := List.length_eq_one_iff.mp (hword.length_eq.trans hlength)
  have htruth : x = 0 ↔ y = 0 := hword.1
  have hvalue : ∀ z : UInt8, (Bytes.littleEndian [z] != 0) = true ↔ ¬z = 0 := by
    intro z
    simp [Bytes.littleEndian, ← UInt8.toNat_inj]
  simp only [Function.comp_apply]
  rw [Bool.eq_iff_iff, hvalue, hvalue, htruth]

theorem length_terminated (size : Nat) : (terminated size).length = size := by
  cases size with
  | zero => rfl
  | succ size => rw [terminated, List.length_append, List.length_replicate, List.length_singleton]

theorem dropLast_of_terminated {word word' : Bytes}
    (h : Interchangeable (terminated word.length) word word') : word'.dropLast = word.dropLast := by
  rcases List.eq_nil_or_concat word with rfl | ⟨front, last, rfl⟩
  · rw [List.length_eq_zero_iff.mp h.length_eq]
  · rw [List.concat_eq_append, List.length_append, List.length_singleton, terminated] at h
    obtain ⟨front', back, rfl, hfront, hback⟩ := h.exists_append List.length_replicate
    obtain ⟨last', rfl⟩ := List.length_eq_one_iff.mp hback.length_eq
    rw [hfront.eq_of_kept, List.concat_eq_append, List.dropLast_concat, List.dropLast_concat]

theorem blind_allButLast {s : Scan Bytes} {purpose : Text} {field : Option Text} {size : Nat}
    (h : s.Takes purpose field size id) : (allButLast (List.dropLast <$> s)).Blind := by
  have hmap := h.map List.dropLast
  intro before after
  refine blindAt_of_takes hmap rfl (length_terminated size) ?_ ?_
  · simp only [allButLast, passed_of_takes hmap before after]
    split <;> rfl
  · rintro word word' rfl hword
    exact dropLast_of_terminated hword

/-- A scan that keeps what it passes over need only be compared where it finds the same bytes. -/
theorem BlindAt.kept {before after : Bytes} {s : Scan α}
    (h : (∃ a word rest notes, after = word ++ rest ∧
        s (before ++ after) before.length = ⟨.ok a, (before ++ word).length, notes⟩ ∧
        ∀ before' rest' : Bytes, before'.length = before.length → rest'.length = rest.length →
          s.Accepts (before' ++ (word ++ rest')) before'.length a (before ++ word).length) ∨
      ∃ f offset notes, s (before ++ after) before.length = ⟨.error f, offset, notes⟩ ∧
        ∀ before' : Bytes, before'.length = before.length →
          (s (before' ++ after) before'.length).result = .error f) :
    (all .kept s).BlindAt before after := by
  unfold BlindAt
  simp only [all]
  rcases h with ⟨a, word, rest, notes, rfl, hrun, hsame⟩ | ⟨f, offset, notes, hrun, hsame⟩
  · rw [hrun]
    have hpassed : (((before ++ word).length : Int) - before.length).toNat = word.length := by
      rw [List.length_append]
      omega
    simp only [hpassed]
    refine .ok rfl List.length_replicate fun before' word' rest' hbefore hword hrest => ?_
    rw [hword.eq_of_kept]
    exact hsame before' rest' hbefore hrest
  · rw [hrun]
    refine .error fun before' after' hbefore hafter => ?_
    rw [hafter.eq_of_kept]
    exact hsame before' hbefore

theorem blind_readSize (w : SizeWidth) (field : Option Text) :
    (all .kept (Scan.readSize w.bytes field)).Blind := by
  intro before after
  apply BlindAt.kept
  simp only [Scan.Accepts, Scan.readSize_append]
  by_cases hsize : w.bytes ≤ after.length
  · have htake : (after.take w.bytes).length = w.bytes := List.length_take_of_le hsize
    rw [if_pos hsize]
    by_cases hmax : maxSize < Bytes.littleEndian (after.take w.bytes)
    · rw [if_pos hmax]
      refine .inr ⟨_, _, _, rfl, fun before' hbefore => ?_⟩
      rw [if_pos hsize, if_pos hmax, hbefore]
    · rw [if_neg hmax, Scan.offset_after_take before hsize]
      refine .inl ⟨_, _, _, _, (List.take_append_drop w.bytes after).symm, rfl,
        fun before' rest' hbefore _ => ?_⟩
      rw [if_pos (by rw [List.length_append]; omega), List.take_left' htake, if_neg hmax, hbefore,
        Scan.offset_after_take before hsize]
      exact ⟨rfl, rfl⟩
  · rw [if_neg hsize]
    refine .inr ⟨_, _, _, rfl, fun before' hbefore => ?_⟩
    rw [if_neg hsize, hbefore]

end Tracked

end LuaBytecode
