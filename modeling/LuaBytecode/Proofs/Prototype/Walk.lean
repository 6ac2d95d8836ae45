import LuaBytecode.Proofs.Decoder.DepthLimit
import LuaBytecode.Proofs.Prototype.Positions
import Mathlib.Algebra.GroupWithZero.Nat
import Mathlib.Data.List.Forall2

/-!
# The walk of a tree

The walk takes the first tree of the stack and puts its children in its place. What it is still to
give at any time is the pre-orders of the trees in the stack, one after another, so that from a
single tree it gives the pre-order of that tree. The pre-order is the order in which the prototypes
are written, since each is written after the fields of the one that holds it and before all that
comes after it there.
-/

namespace LuaBytecode

namespace Prototype

theorem walkStack_eq_preorderAll (stack : List Prototype) :
    walkStack stack = preorderAll stack := by
  fun_induction walkStack stack with
  | case1 => rfl
  | case2 p rest ih =>
    obtain ⟨info, children⟩ := p
    rw [ih, preorderAll_append, preorderAll, preorder]
    rfl

theorem walk_eq (p : Prototype) : p.walk = p.preorder := by
  rw [walk, walkStack_eq_preorderAll, preorderAll, preorderAll, List.append_nil]

/-! ### How many are given -/

def childCount (p : Prototype) : Nat := p.children.length

mutual

theorem length_preorder : (p : Prototype) →
    p.preorder.length = 1 + (p.preorder.map childCount).sum
  | .node info children => by
    have hnested := length_preorderAll children
    have hcount : childCount (.node info children) = children.length := rfl
    rw [preorder, List.length_cons, List.map_cons, List.sum_cons, hcount]
    omega

theorem length_preorderAll : (ps : List Prototype) →
    (preorderAll ps).length = ps.length + ((preorderAll ps).map childCount).sum
  | [] => rfl
  | p :: rest => by
    have hfirst := length_preorder p
    have hrest := length_preorderAll rest
    rw [preorderAll, List.length_append, List.map_append, List.sum_append, List.length_cons]
    omega

end

end Prototype

/-! ### Where the encodings start -/

namespace StoredPrototype

variable {annotate : Bool} {read : TextReader}

mutual

/-- The places in pre-order are those of the prototypes in pre-order. -/
theorem preorder_of_tree? (w : SizeWidth) : (p : StoredPrototype) → {tree : Prototype} →
    {start depth : Nat} → p.tree? annotate read = some tree →
    List.Forall₂ (fun place q => place.prototype.tree? annotate read = some q)
      (p.places w start depth) tree.preorder
  | .node f children d, tree, start, depth, h => by
    obtain ⟨info, _, trees, htrees, rfl⟩ := tree?_node_eq_some_iff.mp h
    exact .cons h (preorderAll_of_treeAll? w children htrees)

theorem preorderAll_of_treeAll? (w : SizeWidth) : (ps : List StoredPrototype) →
    {trees : List Prototype} → {start depth : Nat} → treeAll? annotate read ps = some trees →
    List.Forall₂ (fun place q => place.prototype.tree? annotate read = some q)
      (placesAll w start depth ps) (Prototype.preorderAll trees)
  | [], _, _, _, h => by
    cases h
    exact .nil
  | p :: rest, _, _, _, h => by
    obtain ⟨tree, htree, others, hothers, rfl⟩ := treeAll?_cons_eq_some_iff.mp h
    exact List.rel_append (preorder_of_tree? w p htree) (preorderAll_of_treeAll? w rest hothers)

end

mutual

theorem ascending_places (w : SizeWidth) : (p : StoredPrototype) → {start depth : Nat} →
    (p.places w start depth).Pairwise fun earlier later => earlier.start < later.start
  | .node f children d, start, depth => by
    refine List.Pairwise.cons (fun nested hnested => ?_) (ascending_placesAll w children)
    obtain ⟨front, _, _, hstart⟩ := in_bytes_of_mem_placesAll w children hnested
    change start < nested.start
    omega

theorem ascending_placesAll (w : SizeWidth) : (ps : List StoredPrototype) → {start depth : Nat} →
    (placesAll w start depth ps).Pairwise fun earlier later => earlier.start < later.start
  | [], _, _ => List.Pairwise.nil
  | p :: rest, start, depth => by
    refine List.pairwise_append.mpr ⟨ascending_places w p, ascending_placesAll w rest, ?_⟩
    intro earlier hearlier later hlater
    -- The earlier one lies within the bytes of the first sibling, and the later one after them.
    obtain ⟨front, back, hbytes, hstart⟩ := in_bytes_of_mem_places w p hearlier
    obtain ⟨_, _, _, hlate⟩ := in_bytes_of_mem_placesAll w rest hlater
    have hsize := earlier.prototype.le_length_bytes w
    have hlength := congrArg List.length hbytes
    rw [List.length_append, List.length_append] at hlength
    have hpositive : 0 < Decoder.prototypeSize := by decide
    omega

end

end StoredPrototype

/-- The walk over the tree of a decoded buffer gives the prototypes in pre-order, each once, which
is the order in which they start in the buffer. -/
theorem walk_of_decode {o : Options} {b : Bytes} {c : Chunk} (h : (decode o b).1 = .ok c) :
    c.root.walk = c.root.preorder ∧
    (c.root.walk.map some = c.root.positions.map c.root.at? ∧ c.root.positions.Nodup ∧
      ∀ path, path ∈ c.root.positions ↔ (c.root.at? path).isSome = true) ∧
    (∃ s : StoredChunk, s.Derives b ∧
      List.Forall₂ (fun place p => place.In s.width 0 b ∧
          place.prototype.tree? o.verboseInstructions o.stringErrors.read = some p)
        s.places c.root.walk ∧
      s.places.Pairwise fun earlier later => earlier.start < later.start) ∧
    c.root.walk.length = 1 + (c.root.walk.map fun p => p.children.length).sum := by
  obtain ⟨s, hderives, _, _, _, htree⟩ := (readChunk_eq_ok_iff o .atCount b c).mp h
  have hplaces : ∀ place ∈ s.places, place.In s.width 0 b := fun place hplace =>
    hderives.1 ▸ StoredChunk.in_bytes_of_mem_places hplace
  have hpreorder := (List.forall₂_and_left _ _).mpr
    ⟨hplaces, StoredPrototype.preorder_of_tree? s.width s.root htree⟩
  have hascending : s.places.Pairwise fun earlier later => earlier.start < later.start :=
    StoredPrototype.ascending_places s.width s.root
  rw [Prototype.walk_eq]
  exact ⟨rfl, ⟨(Prototype.map_at?_positions _).symm, Prototype.nodup_positions _,
      fun path => Prototype.mem_positions_iff⟩, ⟨s, hderives, hpreorder, hascending⟩,
    Prototype.length_preorder _⟩

theorem walk_nestedSample :
    (decode {} nestedSample.bytes).1 = .ok ⟨⟨.eight⟩, nestedTree, nestedSample.bytes⟩ ∧
      nestedTree.walk = nestedTree.preorder ∧
      nestedTree.preorder.map (·.info.lineDefined) = [0, 1, 2, 3] ∧
      nestedTree.positions = [[], [0], [1], [1, 0]] := by
  have hdecode : (decode {} nestedSample.bytes).1 =
      .ok ⟨⟨.eight⟩, nestedTree, nestedSample.bytes⟩ := by decide +kernel
  exact ⟨hdecode, (walk_of_decode hdecode).1, by decide, by decide⟩

end LuaBytecode
