import LuaBytecode.Prototype
import Mathlib.Data.List.Basic

/-!
# Positions in a tree

A prototype is found in a tree by the way down to it: at each level, the index of the child to go
on with. One prototype may be the same as another elsewhere, but no two have the same position. In
pre-order the positions ascend as words do in a dictionary, so that none comes twice.
-/

namespace LuaBytecode

namespace Prototype

/-- The prototype at a position, if the tree has the position. -/
def at? : Prototype → List Nat → Option Prototype
  | p, [] => some p
  | p, i :: path => p.children[i]?.bind fun child => child.at? path

mutual

/-- A prototype, and then the prototypes nested in it, child after child. -/
def preorder : Prototype → List Prototype
  | .node info children => .node info children :: preorderAll children

def preorderAll : List Prototype → List Prototype
  | [] => []
  | p :: rest => preorder p ++ preorderAll rest

end

mutual

def positions : Prototype → List (List Nat)
  | .node _ children => [] :: positionsFrom 0 children

/-- The positions in siblings of which the first has the index `i`. -/
def positionsFrom (i : Nat) : List Prototype → List (List Nat)
  | [] => []
  | p :: rest => (positions p).map (i :: ·) ++ positionsFrom (i + 1) rest

end

theorem preorderAll_append (ps qs : List Prototype) :
    preorderAll (ps ++ qs) = preorderAll ps ++ preorderAll qs := by
  induction ps with
  | nil => rfl
  | cons p rest ih => rw [List.cons_append, preorderAll, preorderAll, ih, List.append_assoc]

theorem at?_node (info : FunctionInfo) (children : List Prototype) (i : Nat) (path : List Nat) :
    (node info children).at? (i :: path) = children[i]?.bind fun child => child.at? path := rfl

/-! ### Every position once -/

theorem exists_of_mem_positionsFrom {ps : List Prototype} {i : Nat} {path : List Nat}
    (h : path ∈ positionsFrom i ps) :
    ∃ j q rest, ps[j]? = some q ∧ rest ∈ q.positions ∧ path = (i + j) :: rest := by
  induction ps generalizing i with
  | nil => cases h
  | cons p more ih =>
    rcases List.mem_append.mp h with hfirst | hmore
    · obtain ⟨rest, hrest, rfl⟩ := List.mem_map.mp hfirst
      exact ⟨0, p, rest, rfl, hrest, rfl⟩
    · obtain ⟨j, q, rest, hq, hrest, rfl⟩ := ih hmore
      exact ⟨j + 1, q, rest, hq, hrest, by rw [Nat.add_assoc, Nat.add_comm 1]⟩

theorem mem_positionsFrom {ps : List Prototype} {j : Nat} {q : Prototype} {rest : List Nat}
    (hq : ps[j]? = some q) (hrest : rest ∈ q.positions) (i : Nat) :
    (i + j) :: rest ∈ positionsFrom i ps := by
  induction ps generalizing i j with
  | nil => cases hq
  | cons p more ih =>
    cases j with
    | zero =>
      cases hq
      exact List.mem_append_left _ (List.mem_map_of_mem hrest)
    | succ j =>
      have hmore := ih hq (i + 1)
      rw [Nat.add_assoc, Nat.add_comm 1] at hmore
      exact List.mem_append_right _ hmore

theorem mem_positions_iff {p : Prototype} {path : List Nat} :
    path ∈ p.positions ↔ (p.at? path).isSome = true := by
  induction path generalizing p with
  | nil =>
    obtain ⟨info, children⟩ := p
    exact iff_of_true List.mem_cons_self rfl
  | cons i path ih =>
    obtain ⟨info, children⟩ := p
    have hcons : i :: path ∈ (node info children).positions ↔
        i :: path ∈ positionsFrom 0 children := by
      rw [positions, List.mem_cons, or_iff_right (List.cons_ne_nil i path)]
    rw [hcons, at?_node]
    constructor
    · intro h
      obtain ⟨j, q, rest, hq, hrest, hpath⟩ := exists_of_mem_positionsFrom h
      obtain ⟨hindex, rfl⟩ := List.cons.inj hpath
      rw [Nat.zero_add] at hindex
      rw [hindex, hq]
      exact ih.mp hrest
    · intro h
      obtain ⟨r, hr⟩ := Option.isSome_iff_exists.mp h
      obtain ⟨q, hq, hfound⟩ := Option.bind_eq_some_iff.mp hr
      rw [← Nat.zero_add i]
      exact mem_positionsFrom hq (ih.mpr (Option.isSome_of_eq_some hfound)) 0

mutual

theorem pairwise_positions : (p : Prototype) → p.positions.Pairwise (· < ·)
  | .node _ children => by
    refine List.Pairwise.cons ?_ (pairwise_positionsFrom 0 children)
    intro path hpath
    obtain ⟨_, _, _, _, _, rfl⟩ := exists_of_mem_positionsFrom hpath
    exact List.nil_lt_cons _ _

theorem pairwise_positionsFrom (i : Nat) : (ps : List Prototype) →
    (positionsFrom i ps).Pairwise (· < ·)
  | [] => List.Pairwise.nil
  | p :: rest => by
    rw [positionsFrom, List.pairwise_append, List.pairwise_map]
    refine ⟨?_, pairwise_positionsFrom (i + 1) rest, ?_⟩
    · exact (pairwise_positions p).imp fun h => List.cons_lt_cons_self.mpr h
    · intro path hpath later hlater
      obtain ⟨front, _, rfl⟩ := List.mem_map.mp hpath
      obtain ⟨j, _, back, _, _, rfl⟩ := exists_of_mem_positionsFrom hlater
      exact List.cons_lt_cons_iff.mpr (.inl (by omega))

end

theorem nodup_positions (p : Prototype) : p.positions.Nodup :=
  (pairwise_positions p).imp fun {path later} hlt (heq : path = later) =>
    List.lt_irrefl later (heq ▸ hlt)

mutual

/-- In pre-order, the prototypes are those at the positions in ascending order. -/
theorem map_at?_positions : (p : Prototype) → p.positions.map p.at? = p.preorder.map some
  | .node info children => by
    rw [positions, preorder, List.map_cons, List.map_cons]
    congr 1
    exact map_positionsFrom children fun j q hq path => by rw [at?_node, Nat.zero_add, hq]; rfl

theorem map_positionsFrom : (ps : List Prototype) → {i : Nat} →
    {find : List Nat → Option Prototype} →
    (∀ j q, ps[j]? = some q → ∀ path, find ((i + j) :: path) = q.at? path) →
    (positionsFrom i ps).map find = (preorderAll ps).map some
  | [], _, _, _ => rfl
  | p :: rest, i, find, h => by
    rw [positionsFrom, preorderAll, List.map_append, List.map_append, List.map_map]
    congr 1
    · rw [← map_at?_positions p]
      exact List.map_congr_left fun path _ => h 0 p rfl path
    · refine map_positionsFrom rest fun j q hq path => ?_
      rw [← h (j + 1) q hq path, Nat.add_assoc, Nat.add_comm 1]

end

theorem mem_preorder_iff {p q : Prototype} : q ∈ p.preorder ↔ ∃ path, p.at? path = some q := by
  have hsome : some q ∈ p.preorder.map some ↔ q ∈ p.preorder := by simp
  rw [← hsome, ← map_at?_positions, List.mem_map]
  constructor
  · intro h
    obtain ⟨path, _, hpath⟩ := h
    exact ⟨path, hpath⟩
  · intro h
    obtain ⟨path, hpath⟩ := h
    exact ⟨path, mem_positions_iff.mpr (Option.isSome_of_eq_some hpath), hpath⟩

end Prototype

end LuaBytecode
