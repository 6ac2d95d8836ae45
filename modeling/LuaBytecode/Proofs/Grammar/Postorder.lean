import LuaBytecode.Proofs.Grammar.Preorder
import Mathlib.Data.List.Forall2

/-!
# Prototypes in post-order

A prototype is read whole only when all nested in it are, so that what is noted of a chunk is in
post-order. The places are those of the pre-order, each with the offset where it starts and its
depth; only the order is another.
-/

namespace LuaBytecode

namespace Prototype

mutual

/-- The prototypes nested in one, child after child, and then the prototype itself. -/
def postorder : Prototype → List Prototype
  | .node info children => postorderAll children ++ [.node info children]

def postorderAll : List Prototype → List Prototype
  | [] => []
  | p :: rest => postorder p ++ postorderAll rest

end

end Prototype

namespace StoredPrototype

mutual

/-- The places of a prototype and of all nested in it, each after those nested in it. -/
def postorder (w : SizeWidth) (start depth : Nat) : StoredPrototype → List Place
  | .node f children d =>
    postorderAll w (start + (f.bytes w).length + 4) (depth + 1) children ++
      [⟨.node f children d, start, depth⟩]

def postorderAll (w : SizeWidth) (start depth : Nat) : List StoredPrototype → List Place
  | [] => []
  | p :: rest => postorder w start depth p ++ postorderAll w (start + (p.bytes w).length) depth rest

end

variable {annotate : Bool} {read : TextReader}

mutual

theorem perm_postorder (w : SizeWidth) : (p : StoredPrototype) → {start depth : Nat} →
    (p.postorder w start depth).Perm (p.places w start depth)
  | .node f children d, start, depth => by
    rw [postorder, places]
    exact List.perm_append_comm.trans ((perm_postorderAll w children).cons _)

theorem perm_postorderAll (w : SizeWidth) : (ps : List StoredPrototype) → {start depth : Nat} →
    (postorderAll w start depth ps).Perm (placesAll w start depth ps)
  | [], _, _ => List.Perm.nil
  | p :: rest, start, depth => by
    rw [postorderAll, placesAll]
    exact (perm_postorder w p).append (perm_postorderAll w rest)

end

mutual

/-- The places in post-order are those of the prototypes in post-order. -/
theorem postorder_of_tree? (w : SizeWidth) : (p : StoredPrototype) → {tree : Prototype} →
    (start depth : Nat) → p.tree? annotate read = some tree →
    List.Forall₂ (fun place q => place.prototype.tree? annotate read = some q)
      (p.postorder w start depth) tree.postorder
  | .node f children d, tree, start, depth, h => by
    obtain ⟨info, _, trees, htrees, rfl⟩ := tree?_node_eq_some_iff.mp h
    exact List.rel_append (postorderAll_of_treeAll? w children _ _ htrees) (.cons h .nil)

theorem postorderAll_of_treeAll? (w : SizeWidth) : (ps : List StoredPrototype) →
    {trees : List Prototype} → (start depth : Nat) → treeAll? annotate read ps = some trees →
    List.Forall₂ (fun place q => place.prototype.tree? annotate read = some q)
      (postorderAll w start depth ps) (Prototype.postorderAll trees)
  | [], _, _, _, h => by
    cases h
    exact .nil
  | p :: rest, _, _, _, h => by
    obtain ⟨tree, htree, others, hothers, rfl⟩ := treeAll?_cons_eq_some_iff.mp h
    exact List.rel_append (postorder_of_tree? w p _ _ htree)
      (postorderAll_of_treeAll? w rest _ _ hothers)

end

end StoredPrototype

namespace StoredChunk

/-- The places of all prototypes, the main one last. -/
def postorder (c : StoredChunk) : List Place :=
  c.root.postorder c.width (headerBytes c.width).length 0

theorem in_bytes_of_mem_postorder {c : StoredChunk} {place : Place} (h : place ∈ c.postorder) :
    place.In c.width 0 c.bytes :=
  in_bytes_of_mem_places ((c.root.perm_postorder c.width).mem_iff.mp h)

end StoredChunk

end LuaBytecode
