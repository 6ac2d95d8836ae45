import LuaBytecode.Proofs.Decimal.Number
import LuaBytecode.Proofs.Prototype.Positions
import Mathlib.Data.List.Forall2
import Mathlib.Data.List.Sort

/-!
# Equality of trees

Two trees are equal if they have the same positions and at each position functions that agree. The
comparison keeps a stack of pairs still to be compared, and at any time it is to find out whether
all pairs in the stack are equal: a pair is equal if its roots are, the number of children included,
and so are the pairs of its children. Because the number of children is compared first, no child is
without its partner, and because all pairs have to be equal, their order does not matter.
-/

namespace LuaBytecode

/-- Constants of one kind with one value. What is no number has no value. -/
inductive Constant.Agree : Constant → Constant → Prop
  | nil : Agree .nil .nil
  | boolean (b : Bool) : Agree (.boolean b) (.boolean b)
  | number {x y : Binary64} (hx : x.number ≠ .nan) (hxy : x.number = y.number) :
    Agree (.number x) (.number y)
  | string (t : Option Text) : Agree (.string t) (.string t)

theorem Constant.same_iff_agree {c d : Constant} : c.same d = true ↔ c.Agree d := by
  constructor
  · intro h
    cases c with
    | nil =>
      cases d with
      | nil => exact .nil
      | _ => cases h
    | boolean b =>
      cases d with
      | boolean b' =>
        cases eq_of_beq h
        exact .boolean b
      | _ => cases h
    | number x =>
      cases d with
      | number y =>
        obtain ⟨hx, hxy⟩ := Binary64.sameNumber_iff.mp h
        exact .number hx hxy
      | _ => cases h
    | string s =>
      cases d with
      | string t =>
        cases eq_of_beq h
        exact .string s
      | _ => cases h
  · intro h
    cases h with
    | nil => rfl
    | boolean b => exact beq_self_eq_true b
    | number hx hxy => exact Binary64.sameNumber_iff.mpr ⟨hx, hxy⟩
    | string t => exact beq_self_eq_true t

/-- Functions with the same fields, except that constants only have to agree. -/
structure FunctionInfo.Agree (f g : FunctionInfo) : Prop where
  source : f.source = g.source
  lineDefined : f.lineDefined = g.lineDefined
  lastLineDefined : f.lastLineDefined = g.lastLineDefined
  upvalueCount : f.upvalueCount = g.upvalueCount
  parameterCount : f.parameterCount = g.parameterCount
  varargFlag : f.varargFlag = g.varargFlag
  maxStackSize : f.maxStackSize = g.maxStackSize
  instructions : f.instructions = g.instructions
  constants : List.Forall₂ Constant.Agree f.constants g.constants

theorem FunctionInfo.same_iff_agree {f g : FunctionInfo} : f.same g = true ↔ f.Agree g := by
  simp only [same, Bool.and_eq_true, beq_iff_eq, List.all_eq_true, Prod.forall,
    Constant.same_iff_agree, ← List.forall₂_iff_zip]
  constructor
  · rintro ⟨⟨⟨⟨⟨⟨⟨⟨hsource, hline⟩, hlast⟩, hupvalues⟩, hparameters⟩, hvararg⟩, hstack⟩,
      hinstructions⟩, hconstants⟩
    exact ⟨hsource, hline, hlast, hupvalues, hparameters, hvararg, hstack, hinstructions,
      hconstants⟩
  · intro h
    exact ⟨⟨⟨⟨⟨⟨⟨⟨h.source, h.lineDefined⟩, h.lastLineDefined⟩, h.upvalueCount⟩,
      h.parameterCount⟩, h.varargFlag⟩, h.maxStackSize⟩, h.instructions⟩, h.constants⟩

namespace Prototype

theorem sameRoot_iff {p q : Prototype} :
    p.sameRoot q = true ↔ p.info.Agree q.info ∧ p.children.length = q.children.length := by
  rw [sameRoot, Bool.and_eq_true, FunctionInfo.same_iff_agree, beq_iff_eq]

/-- At every position there are two functions that agree, or none. -/
def Alike (p q : Prototype) : Prop :=
  ∀ path, Option.Rel (fun a b : Prototype => a.info.Agree b.info) (p.at? path) (q.at? path)

theorem optionRel_alike_iff {p? q? : Option Prototype} :
    Option.Rel Alike p? q? ↔
      ∀ path, Option.Rel (fun a b : Prototype => a.info.Agree b.info)
        (p?.bind fun p => p.at? path) (q?.bind fun q => q.at? path) := by
  constructor
  · intro h path
    cases h with
    | some halike => exact halike path
    | none => exact .none
  · intro h
    cases p? with
    | none =>
      cases q? with
      | none => exact .none
      | some q => cases h []
    | some p =>
      cases q? with
      | none => cases h []
      | some q => exact .some h

theorem forall₂_iff_getElem? {R : Prototype → Prototype → Prop} {ps qs : List Prototype} :
    List.Forall₂ R ps qs ↔ ∀ i : Nat, Option.Rel R ps[i]? qs[i]? := by
  induction ps generalizing qs with
  | nil =>
    cases qs with
    | nil => exact iff_of_true .nil fun _ => .none
    | cons q qs =>
      refine iff_of_false (fun h => by cases h) fun h => ?_
      cases h 0
  | cons p ps ih =>
    cases qs with
    | nil =>
      refine iff_of_false (fun h => by cases h) fun h => ?_
      cases h 0
    | cons q qs =>
      rw [List.forall₂_cons, ih]
      constructor
      · intro h i
        cases i with
        | zero => exact .some h.1
        | succ i => exact h.2 i
      · intro h
        refine ⟨?_, fun i => h (i + 1)⟩
        cases h 0 with
        | some hroot => exact hroot

theorem alike_node_iff {f g : FunctionInfo} {ps qs : List Prototype} :
    Alike (.node f ps) (.node g qs) ↔ f.Agree g ∧ List.Forall₂ Alike ps qs := by
  rw [forall₂_iff_getElem?]
  constructor
  · intro h
    have hroot : f.Agree g := by
      cases h [] with
      | some hagree => exact hagree
    exact ⟨hroot, fun i => optionRel_alike_iff.mpr fun path => h (i :: path)⟩
  · intro h path
    cases path with
    | nil => exact .some h.1
    | cons i path => exact optionRel_alike_iff.mp (h.2 i) path

/-- What one step of the comparison finds out, and what it leaves to be compared. -/
theorem alike_iff {p q : Prototype} :
    Alike p q ↔ p.sameRoot q = true ∧ ∀ pair ∈ p.children.zip q.children, Alike pair.1 pair.2 := by
  obtain ⟨f, ps⟩ := p
  obtain ⟨g, qs⟩ := q
  rw [sameRoot_iff, alike_node_iff, List.forall₂_iff_zip, Prod.forall, and_assoc]
  rfl

/-- The comparison finds out whether all pairs in its stack are alike. -/
theorem samePairs_iff (stack : List (Prototype × Prototype)) :
    samePairs stack = true ↔ ∀ pair ∈ stack, Alike pair.1 pair.2 := by
  fun_induction samePairs stack with
  | case1 => simp
  | case2 p q rest ih =>
    rw [Bool.and_eq_true, ih, List.forall_mem_append, List.forall_mem_cons, alike_iff, and_assoc]
    simp only [List.mem_reverse]

theorem same_iff_alike {p q : Prototype} : p.same q = true ↔ Alike p q := by
  rw [same, samePairs_iff, List.forall_mem_singleton]

theorem optionRel_iff {R : Prototype → Prototype → Prop} {p? q? : Option Prototype} :
    Option.Rel R p? q? ↔
      (p?.isSome = true ↔ q?.isSome = true) ∧ ∀ a b, p? = some a → q? = some b → R a b := by
  cases p? with
  | none =>
    cases q? with
    | none => exact iff_of_true .none ⟨Iff.rfl, fun a b ha => by cases ha⟩
    | some q => exact iff_of_false (fun h => by cases h) fun h => by simpa using h.1
  | some p =>
    cases q? with
    | none => exact iff_of_false (fun h => by cases h) fun h => by simpa using h.1
    | some q =>
      constructor
      · intro h
        cases h with
        | some hpq =>
          refine ⟨Iff.rfl, fun a b ha hb => ?_⟩
          cases ha
          cases hb
          exact hpq
      · intro h
        exact .some (h.2 p q rfl rfl)

theorem alike_iff_positions {p q : Prototype} :
    Alike p q ↔ p.positions = q.positions ∧
      ∀ path a b, p.at? path = some a → q.at? path = some b → a.info.Agree b.info := by
  have hshape : p.positions = q.positions ↔
      ∀ path, (p.at? path).isSome = true ↔ (q.at? path).isSome = true := by
    simp only [← mem_positions_iff]
    refine ⟨fun h path => by rw [h], fun h => ?_⟩
    exact (pairwise_positions p).eq_of_mem_iff (pairwise_positions q) h
  rw [hshape, ← forall_and]
  exact forall_congr' fun path => optionRel_iff

/-- The comparison of two trees finds them equal exactly if they have the same shape and at every
position functions that agree. -/
theorem same_iff (p q : Prototype) :
    p.same q = true ↔ p.positions = q.positions ∧
      ∀ path a b, p.at? path = some a → q.at? path = some b → a.info.Agree b.info :=
  same_iff_alike.trans alike_iff_positions

end Prototype

end LuaBytecode
