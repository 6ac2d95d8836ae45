/-!
# Tables of equalities

An equality under which an item may differ from itself, as one that compares numbers does, still
finds an item equal to itself when both are the same occurrence in a list. Such an item is distinct
from every other.
-/

namespace LuaBytecode.Comparison

/-- Row `i`, column `j` says whether items `i` and `j` are equal; every item is equal to itself. -/
def table {α : Type} (same : α → α → Bool) (items : List α) : List (List Bool) :=
  items.zipIdx.map fun (x, i) => items.zipIdx.map fun (y, j) => i == j || same x y

def distinct {α : Type} (same : α → α → Bool) (items : List α) : List α :=
  items.foldl (fun kept x => if kept.any (same x) then kept else kept ++ [x]) []

end LuaBytecode.Comparison
