import LuaBytecode.Constant
import LuaBytecode.Instruction

/-!
# Function prototypes

A prototype is one compiled function and the prototypes of the functions nested in it. Walking and
comparing keep a stack of what is still to be done, so that neither recurses once for each level of
nesting.
-/

namespace LuaBytecode

/-- A compiled function without the functions nested in it. The source name is absent where the
compiler left it out. -/
structure FunctionInfo where
  source : Option Text
  lineDefined : Nat
  lastLineDefined : Nat
  upvalueCount : Nat
  parameterCount : Nat
  varargFlag : Nat
  maxStackSize : Nat
  instructions : List Instruction
  constants : List Constant
  deriving DecidableEq

/-- Equality of the fields, with constants compared as values. -/
def FunctionInfo.same (f g : FunctionInfo) : Bool :=
  f.source == g.source && f.lineDefined == g.lineDefined &&
    f.lastLineDefined == g.lastLineDefined && f.upvalueCount == g.upvalueCount &&
    f.parameterCount == g.parameterCount && f.varargFlag == g.varargFlag &&
    f.maxStackSize == g.maxStackSize && f.instructions == g.instructions &&
    (f.constants.length == g.constants.length &&
      (f.constants.zip g.constants).all fun (c, d) => c.same d)

inductive Prototype where
  | node (info : FunctionInfo) (children : List Prototype)

namespace Prototype

def info : Prototype → FunctionInfo
  | .node info _ => info

def children : Prototype → List Prototype
  | .node _ children => children

mutual

/-- Two trees are identical if their functions are and the trees nested in them. -/
def decEq : (p q : Prototype) → Decidable (p = q)
  | .node f ps, .node g qs =>
    if h : f = g then
      match decEqAll ps qs with
      | isTrue hs => isTrue (by rw [h, hs])
      | isFalse hs => isFalse (by simp [hs])
    else isFalse (by simp [h])

def decEqAll : (ps qs : List Prototype) → Decidable (ps = qs)
  | [], [] => isTrue rfl
  | [], _ :: _ => isFalse (by simp)
  | _ :: _, [] => isFalse (by simp)
  | p :: ps, q :: qs =>
    match decEq p q with
    | isTrue h =>
      match decEqAll ps qs with
      | isTrue hs => isTrue (by rw [h, hs])
      | isFalse hs => isFalse (by simp [hs])
    | isFalse h => isFalse (by simp [h])

end

instance : DecidableEq Prototype := decEq

mutual

def size : Prototype → Nat
  | .node _ children => 1 + sizeAll children

def sizeAll : List Prototype → Nat
  | [] => 0
  | p :: rest => size p + sizeAll rest

end

theorem size_eq (p : Prototype) : p.size = 1 + sizeAll p.children := by
  cases p; simp [size, children]

theorem sizeAll_append (ps qs : List Prototype) : sizeAll (ps ++ qs) = sizeAll ps + sizeAll qs := by
  induction ps with
  | nil => simp [sizeAll]
  | cons p rest ih => simp [sizeAll, ih, Nat.add_assoc]

theorem sizeAll_reverse (ps : List Prototype) : sizeAll ps.reverse = sizeAll ps := by
  induction ps with
  | nil => rfl
  | cons p rest ih => simp [sizeAll_append, sizeAll, ih, Nat.add_comm]

theorem sizeAll_zip_le (ps qs : List Prototype) :
    sizeAll ((ps.zip qs).map Prod.fst) ≤ sizeAll ps := by
  induction ps generalizing qs with
  | nil => simp [sizeAll]
  | cons p rest ih =>
    cases qs with
    | nil => simp [sizeAll]
    | cons q more =>
      have h := ih more
      simp only [List.zip_cons_cons, List.map_cons, sizeAll]
      omega

/-- The prototypes reached from a stack of trees, each before those nested in it. -/
def walkStack : List Prototype → List Prototype
  | [] => []
  | p :: rest => p :: walkStack (p.children ++ rest)
termination_by stack => sizeAll stack
decreasing_by
  rw [sizeAll_append, sizeAll, size_eq p]
  omega

/-- The prototype and all nested in it, each before those nested in it, in the order of the file. -/
def walk (p : Prototype) : List Prototype := walkStack [p]

/-- Equality of the functions at two roots, and of the number of functions nested in them. -/
def sameRoot (p q : Prototype) : Bool :=
  p.info.same q.info && p.children.length == q.children.length

def samePairs : List (Prototype × Prototype) → Bool
  | [] => true
  | (p, q) :: rest => p.sameRoot q && samePairs ((p.children.zip q.children).reverse ++ rest)
termination_by stack => sizeAll (stack.map Prod.fst)
decreasing_by
  have h := sizeAll_zip_le p.children q.children
  rw [List.map_append, List.map_reverse, sizeAll_append, sizeAll_reverse, List.map_cons, sizeAll,
    size_eq p]
  omega

def same (p q : Prototype) : Bool := samePairs [(p, q)]

end Prototype

end LuaBytecode
