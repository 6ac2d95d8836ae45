import LuaBytecode.Proofs.Comparison
import LuaBytecode.Proofs.Prototype.Equality
import LuaBytecode.Proofs.Prototype.Walk

/-!
# Sets of trees

Equality of trees is symmetric and transitive, and a tree is equal to a copy of itself exactly if it
holds no NaN. A set compares the hashes of two trees first, and these are computed from what equal
trees have in common, so that a set keeps one tree of each class of equal trees, and every tree that
holds a NaN.
-/

namespace LuaBytecode

theorem Constant.Agree.symm {c d : Constant} (h : c.Agree d) : d.Agree c := by
  cases h with
  | nil => exact .nil
  | boolean b => exact .boolean b
  | number hx hxy => exact .number (hxy ▸ hx) hxy.symm
  | string t => exact .string t

theorem Constant.Agree.trans {c d e : Constant} (hcd : c.Agree d) (hde : d.Agree e) :
    c.Agree e := by
  cases hcd with
  | nil => exact hde
  | boolean b => exact hde
  | number hx hxy =>
    cases hde with
    | number _ hyz => exact .number hx (hxy.trans hyz)
  | string t => exact hde

theorem Constant.agree_self_iff {c : Constant} : c.Agree c ↔ c.isNaN = false := by
  cases c with
  | nil => exact iff_of_true .nil rfl
  | boolean b => exact iff_of_true (.boolean b) rfl
  | number x =>
    rw [isNaN, ← Bool.not_eq_true, ← Binary64.number_eq_nan_iff]
    constructor
    · intro h
      cases h with
      | number hx _ => exact hx
    · intro h
      exact .number h rfl
  | string t => exact iff_of_true (.string t) rfl

theorem forall₂_agree_trans {cs ds es : List Constant} (hcd : List.Forall₂ Constant.Agree cs ds)
    (hde : List.Forall₂ Constant.Agree ds es) : List.Forall₂ Constant.Agree cs es := by
  induction hcd generalizing es with
  | nil =>
    cases hde
    exact .nil
  | cons hfirst _ ih =>
    cases hde with
    | cons hfirst' hrest' => exact .cons (hfirst.trans hfirst') (ih hrest')

namespace FunctionInfo.Agree

variable {f g h : FunctionInfo}

theorem symm (hfg : f.Agree g) : g.Agree f where
  source := hfg.source.symm
  lineDefined := hfg.lineDefined.symm
  lastLineDefined := hfg.lastLineDefined.symm
  upvalueCount := hfg.upvalueCount.symm
  parameterCount := hfg.parameterCount.symm
  varargFlag := hfg.varargFlag.symm
  maxStackSize := hfg.maxStackSize.symm
  instructions := hfg.instructions.symm
  constants := (hfg.constants.imp fun _ _ => Constant.Agree.symm).flip

theorem trans (hfg : f.Agree g) (hgh : g.Agree h) : f.Agree h where
  source := hfg.source.trans hgh.source
  lineDefined := hfg.lineDefined.trans hgh.lineDefined
  lastLineDefined := hfg.lastLineDefined.trans hgh.lastLineDefined
  upvalueCount := hfg.upvalueCount.trans hgh.upvalueCount
  parameterCount := hfg.parameterCount.trans hgh.parameterCount
  varargFlag := hfg.varargFlag.trans hgh.varargFlag
  maxStackSize := hfg.maxStackSize.trans hgh.maxStackSize
  instructions := hfg.instructions.trans hgh.instructions
  constants := forall₂_agree_trans hfg.constants hgh.constants

end FunctionInfo.Agree

theorem FunctionInfo.agree_self_iff {f : FunctionInfo} :
    f.Agree f ↔ f.constants.any Constant.isNaN = false := by
  have hconstants : List.Forall₂ Constant.Agree f.constants f.constants ↔
      f.constants.any Constant.isNaN = false := by
    rw [List.forall₂_same, List.any_eq_false]
    exact forall₂_congr fun c _ => Constant.agree_self_iff.trans (Bool.not_eq_true _).to_iff.symm
  rw [← hconstants]
  exact ⟨Agree.constants, fun h => ⟨rfl, rfl, rfl, rfl, rfl, rfl, rfl, rfl, h⟩⟩

namespace Prototype

/-- Some prototype of the tree has a constant that is no number. -/
def holdsNaN (p : Prototype) : Bool := p.walk.any fun q => q.info.constants.any Constant.isNaN

theorem Alike.symm {p q : Prototype} (h : Alike p q) : Alike q p := by
  rw [alike_iff_positions] at h ⊢
  exact ⟨h.1.symm, fun path a b ha hb => (h.2 path b a hb ha).symm⟩

theorem Alike.trans {p q r : Prototype} (hpq : Alike p q) (hqr : Alike q r) : Alike p r := by
  rw [alike_iff_positions] at hpq hqr ⊢
  refine ⟨hpq.1.trans hqr.1, fun path a c ha hc => ?_⟩
  have hpath : path ∈ q.positions := hpq.1 ▸ mem_positions_iff.mpr (Option.isSome_of_eq_some ha)
  obtain ⟨b, hb⟩ := Option.isSome_iff_exists.mp (mem_positions_iff.mp hpath)
  exact (hpq.2 path a b ha hb).trans (hqr.2 path b c hb hc)

theorem alike_self_iff {p : Prototype} : Alike p p ↔ p.holdsNaN = false := by
  have hsame : Alike p p ↔ ∀ path a, p.at? path = some a → a.info.Agree a.info := by
    rw [alike_iff_positions]
    constructor
    · intro h path a ha
      exact h.2 path a a ha ha
    · intro h
      refine ⟨rfl, fun path a b ha hb => ?_⟩
      cases ha.symm.trans hb
      exact h path a ha
  rw [hsame, holdsNaN, walk_eq, List.any_eq_false]
  simp only [mem_preorder_iff, FunctionInfo.agree_self_iff, Bool.not_eq_true]
  exact ⟨fun h q hq => by obtain ⟨path, hpath⟩ := hq; exact h path q hpath,
    fun h path a ha => h a ⟨path, ha⟩⟩

theorem same_comm (p q : Prototype) : p.same q = q.same p := by
  rw [Bool.eq_iff_iff, same_iff_alike, same_iff_alike]
  exact ⟨Alike.symm, Alike.symm⟩

theorem same_trans (p q r : Prototype) (hpq : p.same q = true) (hqr : q.same r = true) :
    p.same r = true := by
  rw [same_iff_alike] at hpq hqr ⊢
  exact hpq.trans hqr

theorem sameRoot_of_same {p q : Prototype} (h : p.same q = true) : p.sameRoot q = true :=
  (alike_iff.mp (same_iff_alike.mp h)).1

theorem same_self_iff {p : Prototype} : p.same p = true ↔ p.holdsNaN = false :=
  same_iff_alike.trans alike_self_iff

end Prototype

/-- A tree as a set holds it: with a hash, which may depend on more than the value of the tree. -/
structure HashedTree where
  root : Prototype
  hash : Int

namespace HashedTree

/-- How a set finds out whether it has the tree already. -/
def same (x y : HashedTree) : Bool := x.hash == y.hash && x.root.same y.root

/-- Hashes that are computed from what is compared at the root are the same if that is. -/
def HashesAgree (trees : List HashedTree) : Prop :=
  ∀ x ∈ trees, ∀ y ∈ trees, x.root.sameRoot y.root = true → x.hash = y.hash

theorem same_eq {trees : List HashedTree} (h : HashesAgree trees) {x y : HashedTree}
    (hx : x ∈ trees) (hy : y ∈ trees) : x.same y = x.root.same y.root := by
  rw [same]
  cases hroots : x.root.same y.root with
  | false => exact Bool.and_false _
  | true =>
    rw [h x hx y hy (Prototype.sameRoot_of_same hroots), beq_self_eq_true]
    rfl

end HashedTree

open Comparison in
/-- The trees without NaN are counted by classes, and those that hold one by themselves. -/
theorem length_distinct_roots (roots : List Prototype) :
    (distinct Prototype.same roots).length =
      ((fun p : Prototype => {q | p.same q = true}) ''
          {p | p ∈ roots ∧ p.holdsNaN = false}).ncard +
        roots.countP Prototype.holdsNaN := by
  have hself : ∀ p : Prototype, (!p.same p) = p.holdsNaN := by
    intro p
    rw [Bool.eq_iff_iff, Bool.not_eq_true', ← Bool.not_eq_true, Prototype.same_self_iff,
      Bool.not_eq_false]
  rw [length_distinct Prototype.same_trans Prototype.same_comm]
  simp only [hself, classes, Prototype.same_self_iff]
  rfl

open Comparison in
/-- Equality of trees is symmetric and transitive, and holds between copies of a tree without NaN.
So the size of a set of trees does not depend on the order in which they are put into it. -/
theorem same_law :
    (∀ p q : Prototype, p.same q = q.same p) ∧
    (∀ p q r : Prototype, p.same q = true → q.same r = true → p.same r = true) ∧
    (∀ p q : Prototype, p.same q = true → p.sameRoot q = true) ∧
    (∀ (o : Options) (b : Bytes) (c d : Chunk), (decode o b).1 = .ok c → (decode o b).1 = .ok d →
      (c.root.same d.root = true ↔ c.root.holdsNaN = false) ∧
        (c.same d = true ↔ c.root.holdsNaN = false)) ∧
    (∀ trees : List HashedTree, HashedTree.HashesAgree trees →
      (distinct HashedTree.same trees).map (·.root) =
        distinct Prototype.same (trees.map (·.root))) ∧
    ∀ roots : List Prototype,
      (distinct Prototype.same roots).length =
        ((fun p : Prototype => {q | p.same q = true}) ''
            {p | p ∈ roots ∧ p.holdsNaN = false}).ncard +
          roots.countP Prototype.holdsNaN ∧
      ∀ roots' : List Prototype, roots.Perm roots' →
        (distinct Prototype.same roots').length = (distinct Prototype.same roots).length := by
  refine ⟨Prototype.same_comm, Prototype.same_trans, fun p q => Prototype.sameRoot_of_same, ?_, ?_,
    fun roots => ⟨length_distinct_roots roots, fun roots' h => ?_⟩⟩
  · intro o b c d hc hd
    cases hc.symm.trans hd
    refine ⟨Prototype.same_self_iff, ?_⟩
    rw [Chunk.same, beq_self_eq_true, beq_self_eq_true, Bool.true_and, Bool.and_true]
    exact Prototype.same_self_iff
  · intro trees h
    exact map_distinct fun x hx y hy => HashedTree.same_eq h hx hy
  · exact length_distinct_perm Prototype.same_trans Prototype.same_comm h.symm

/-- A function with one number. -/
def numberSample (x : Binary64) : StoredChunk where
  width := .four
  root := .node ⟨.absent, 0, 0, 0, 0, 0, 2, [], [.number x]⟩ [] ⟨[], [], []⟩
  trailing := []

def numberTree (x : Binary64) : Prototype := .node ⟨none, 0, 0, 0, 0, 0, 2, [], [.number x]⟩ []

open Comparison in
/-- The two zeros are one number, and a NaN is not the NaN of another tree. -/
theorem distinct_numberTree :
    (decode {} (numberSample .nan).bytes).1 =
        .ok ⟨⟨.four⟩, numberTree .nan, (numberSample .nan).bytes⟩ ∧
      (numberTree .nan).same (numberTree .nan) = false ∧
      (distinct Prototype.same
        [numberTree .nan, numberTree ⟨0⟩, numberTree ⟨0x8000000000000000⟩, numberTree .nan]).length
          = 3 := by
  have hdecode : (decode {} (numberSample .nan).bytes).1 =
      .ok ⟨⟨.four⟩, numberTree .nan, (numberSample .nan).bytes⟩ := by decide +kernel
  have hnan : (numberTree .nan).holdsNaN = true := by decide +kernel
  obtain ⟨_, _, _, hcopies, _⟩ := same_law
  have hself : ¬(numberTree .nan).same (numberTree .nan) = true := by
    rw [(hcopies {} _ _ _ hdecode hdecode).1, hnan]
    exact Bool.noConfusion
  exact ⟨hdecode, Bool.eq_false_of_not_eq_true hself, by decide +kernel⟩

end LuaBytecode
