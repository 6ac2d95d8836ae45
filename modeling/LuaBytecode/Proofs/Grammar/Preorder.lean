import LuaBytecode.Proofs.Grammar.Basic

/-!
# Prototypes in pre-order

The prototypes of a chunk are written one inside another, each after the fields of the one that
holds it. Listed in pre-order, each has a depth and an offset where it starts; the offset of a
prototype depends on the sizes of all that are written before it.
-/

namespace LuaBytecode

/-- A prototype where it is written: from the offset `start` on, at a depth of nesting. -/
structure Place where
  prototype : StoredPrototype
  start : Nat
  depth : Nat

/-- The text, which starts at `start`, has the prototype in its place. -/
def Place.In (w : SizeWidth) (place : Place) (start : Nat) (text : Bytes) : Prop :=
  ∃ front back, text = front ++ (place.prototype.bytes w ++ back) ∧
    place.start = start + front.length

namespace Place.In

variable {w : SizeWidth} {place : Place} {start : Nat} {text : Bytes}

theorem after (lead : Bytes) (h : place.In w (start + lead.length) text) :
    place.In w start (lead ++ text) := by
  obtain ⟨front, back, rfl, hstart⟩ := h
  refine ⟨lead ++ front, back, (List.append_assoc _ _ _).symm, ?_⟩
  rw [hstart, List.length_append, Nat.add_assoc]

theorem before (h : place.In w start text) (more : Bytes) : place.In w start (text ++ more) := by
  obtain ⟨front, back, rfl, hstart⟩ := h
  exact ⟨front, back ++ more, by simp, hstart⟩

end Place.In

namespace StoredPrototype

variable (w : SizeWidth)

mutual

/-- The places of a prototype and of all nested in it, each before those nested in it. -/
def places (start depth : Nat) : StoredPrototype → List Place
  | .node f children d =>
    ⟨.node f children d, start, depth⟩ ::
      placesAll (start + (f.bytes w).length + 4) (depth + 1) children

def placesAll (start depth : Nat) : List StoredPrototype → List Place
  | [] => []
  | p :: rest => places start depth p ++ placesAll (start + (p.bytes w).length) depth rest

end

mutual

theorem depth_le_of_mem_places : (p : StoredPrototype) → {start depth : Nat} → {place : Place} →
    place ∈ p.places w start depth → place.depth ≤ depth + p.depth
  | .node f children d, start, depth, place, h => by
    rcases List.mem_cons.mp h with rfl | hnested
    · exact Nat.le_add_right _ _
    · have hlevels := depth_lt_of_mem_placesAll children hnested
      rw [StoredPrototype.depth]
      omega

theorem depth_lt_of_mem_placesAll : (ps : List StoredPrototype) → {start depth : Nat} →
    {place : Place} → place ∈ placesAll w start depth ps → place.depth < depth + levels ps
  | [], _, _, _, h => by cases h
  | p :: rest, start, depth, place, h => by
    rw [levels]
    rcases List.mem_append.mp h with hfirst | hrest
    · have hdepth := depth_le_of_mem_places p hfirst
      omega
    · have hlevels := depth_lt_of_mem_placesAll rest hrest
      omega

end

mutual

theorem in_bytes_of_mem_places : (p : StoredPrototype) → {start depth : Nat} → {place : Place} →
    place ∈ p.places w start depth → place.In w start (p.bytes w)
  | .node f children d, start, depth, place, h => by
    rcases List.mem_cons.mp h with rfl | hnested
    · exact ⟨[], [], by simp, rfl⟩
    · have hchildren := in_bytes_of_mem_placesAll children hnested
      have hlead : start + (f.bytes w ++ Bytes.ofLittleEndian 4 children.length).length =
          start + (f.bytes w).length + 4 := by
        rw [List.length_append, Bytes.length_ofLittleEndian, Nat.add_assoc]
      rw [bytes, ← List.append_assoc (f.bytes w), List.append_assoc]
      rw [← hlead] at hchildren
      exact (hchildren.before (d.bytes w)).after _

theorem in_bytes_of_mem_placesAll : (ps : List StoredPrototype) → {start depth : Nat} →
    {place : Place} → place ∈ placesAll w start depth ps → place.In w start (bytesAll w ps)
  | [], _, _, _, h => by cases h
  | p :: rest, start, depth, place, h => by
    rcases List.mem_append.mp h with hfirst | hrest
    · exact (in_bytes_of_mem_places p hfirst).before (bytesAll w rest)
    · exact (in_bytes_of_mem_placesAll rest hrest).after (p.bytes w)

end

end StoredPrototype

namespace StoredChunk

/-- The main prototype, which starts after the header, and all prototypes nested in it. -/
def places (c : StoredChunk) : List Place :=
  c.root.places c.width (headerBytes c.width).length 0

theorem in_bytes_of_mem_places {c : StoredChunk} {place : Place} (h : place ∈ c.places) :
    place.In c.width 0 c.bytes := by
  have hroot := StoredPrototype.in_bytes_of_mem_places c.width c.root h
  rw [← Nat.zero_add (headerBytes c.width).length] at hroot
  exact (hroot.after (headerBytes c.width)).before c.trailing

end StoredChunk

/-! ### Depth -/

namespace Prototype

mutual

/-- How deep the prototypes below this one nest; none below it are depth zero. -/
def depth : Prototype → Nat
  | .node _ children => levels children

def levels : List Prototype → Nat
  | [] => 0
  | p :: rest => max (depth p + 1) (levels rest)

end

end Prototype

namespace StoredPrototype

variable {annotate : Bool} {read : TextReader}

mutual

theorem depth_of_tree? : (p : StoredPrototype) → {tree : Prototype} →
    p.tree? annotate read = some tree → tree.depth = p.depth
  | .node f children d, tree, h => by
    obtain ⟨info, _, trees, htrees, rfl⟩ := tree?_node_eq_some_iff.mp h
    exact levels_of_treeAll? children htrees

theorem levels_of_treeAll? : (ps : List StoredPrototype) → {trees : List Prototype} →
    treeAll? annotate read ps = some trees → Prototype.levels trees = levels ps
  | [], trees, h => by
    cases h
    rfl
  | p :: rest, trees, h => by
    obtain ⟨tree, htree, others, hothers, rfl⟩ := treeAll?_cons_eq_some_iff.mp h
    rw [Prototype.levels, levels, depth_of_tree? p htree, levels_of_treeAll? rest hothers]

end

end StoredPrototype

end LuaBytecode
