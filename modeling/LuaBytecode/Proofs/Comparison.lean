import LuaBytecode.Comparison
import Mathlib.Data.Set.Card

/-!
# How many items are distinct

An equality that is symmetric and transitive, but under which an item may differ from itself, puts
the items that are equal to themselves into classes. Of each class the first item is kept, and of
the other items every one. So the number of items kept does not depend on the order of the items.
-/

namespace LuaBytecode.Comparison

variable {α β : Type}

theorem distinct_append_singleton (same : α → α → Bool) (items : List α) (x : α) :
    distinct same (items ++ [x]) =
      if (distinct same items).any (same x) then distinct same items
      else distinct same items ++ [x] := by
  rw [distinct, List.foldl_append]
  rfl

theorem mem_of_mem_distinct {same : α → α → Bool} {items : List α} {x : α}
    (h : x ∈ distinct same items) : x ∈ items := by
  induction items using List.reverseRecOn with
  | nil => exact h
  | append_singleton items y ih =>
    rw [distinct_append_singleton] at h
    split at h
    · exact List.mem_append_left _ (ih h)
    · rcases List.mem_append.mp h with hkept | hlast
      · exact List.mem_append_left _ (ih hkept)
      · exact List.mem_append_right _ hlast

/-- Items that are told apart by what they are mapped to are kept if that is. -/
theorem map_distinct {same : α → α → Bool} {same' : β → β → Bool} {f : α → β} {items : List α}
    (h : ∀ x ∈ items, ∀ y ∈ items, same x y = same' (f x) (f y)) :
    (distinct same items).map f = distinct same' (items.map f) := by
  induction items using List.reverseRecOn with
  | nil => rfl
  | append_singleton items x ih =>
    have ih := ih fun y hy z hz => h y (List.mem_append_left _ hy) z (List.mem_append_left _ hz)
    have hkept : (distinct same items).any (same x) =
        ((distinct same items).map f).any (same' (f x)) := by
      rw [List.any_map, Bool.eq_iff_iff, List.any_eq_true, List.any_eq_true]
      refine exists_congr fun y => and_congr_right fun hy => ?_
      have hy := List.mem_append_left [x] (mem_of_mem_distinct hy)
      rw [h x (List.mem_append_right items (List.mem_singleton_self x)) y hy, Function.comp_apply]
    rw [List.map_append, List.map_singleton, distinct_append_singleton, distinct_append_singleton,
      ← ih, ← hkept]
    split
    · rfl
    · rw [List.map_append, List.map_singleton]

/-! ### Classes -/

/-- The class of an item. The class of an item that differs from itself is empty. -/
def classOf (same : α → α → Bool) (x : α) : Set α := {y | same x y = true}

/-- The classes of the items that are equal to themselves. -/
def classes (same : α → α → Bool) (items : List α) : Set (Set α) :=
  classOf same '' {x | x ∈ items ∧ same x x = true}

theorem finite_classes (same : α → α → Bool) (items : List α) : (classes same items).Finite :=
  (items.finite_toSet.subset fun _ hx => hx.1).image _

theorem classes_append_singleton (same : α → α → Bool) (items : List α) (x : α) :
    classes same (items ++ [x]) =
      if same x x then insert (classOf same x) (classes same items) else classes same items := by
  have hitems : {y | y ∈ items ++ [x] ∧ same y y = true} =
      if same x x then insert x {y | y ∈ items ∧ same y y = true}
      else {y | y ∈ items ∧ same y y = true} := by
    ext y
    by_cases hself : same x x = true
    · rw [if_pos hself]
      by_cases hy : y = x <;> simp [hy, hself]
    · rw [if_neg hself]
      by_cases hy : y = x <;> simp [hy, hself]
  rw [classes, classes, hitems]
  split
  · exact Set.image_insert_eq
  · rfl

section

variable {same : α → α → Bool}
  (htrans : ∀ x y z, same x y = true → same y z = true → same x z = true)

include htrans

/-- A new item is equal to one of the items exactly if it is equal to one that is kept. -/
theorem any_distinct (items : List α) (x : α) :
    (distinct same items).any (same x) = items.any (same x) := by
  induction items using List.reverseRecOn with
  | nil => rfl
  | append_singleton items y ih =>
    rw [distinct_append_singleton, List.any_append, ← ih]
    split
    · rename_i hkept
      obtain ⟨z, hz, hyz⟩ := List.any_eq_true.mp hkept
      rw [Bool.eq_iff_iff, Bool.or_eq_true, iff_self_or]
      intro hxy
      have hxy : same x y = true := by simpa using hxy
      exact List.any_eq_true.mpr ⟨z, hz, htrans x y z hxy hyz⟩
    · exact List.any_append

variable (hsymm : ∀ x y, same x y = same y x)

include hsymm

theorem same_self_of_same {x y : α} (h : same x y = true) : same x x = true :=
  htrans x y x h (hsymm x y ▸ h)

theorem classOf_eq_of_same {x y : α} (h : same x y = true) : classOf same x = classOf same y := by
  ext z
  exact ⟨htrans y x z (hsymm x y ▸ h), htrans x y z h⟩

theorem classOf_mem_classes_iff {x : α} (hself : same x x = true) (items : List α) :
    classOf same x ∈ classes same items ↔ items.any (same x) = true := by
  rw [List.any_eq_true]
  constructor
  · intro h
    obtain ⟨y, ⟨hy, _⟩, hclass⟩ := h
    have hx : x ∈ classOf same y := hclass ▸ hself
    exact ⟨y, hy, hsymm x y ▸ hx⟩
  · intro h
    obtain ⟨y, hy, hxy⟩ := h
    have hyself : same y y = true := same_self_of_same htrans hsymm (hsymm x y ▸ hxy)
    exact ⟨y, ⟨hy, hyself⟩, (classOf_eq_of_same htrans hsymm hxy).symm⟩

theorem length_distinct (items : List α) :
    (distinct same items).length =
      (classes same items).ncard + items.countP fun x => !same x x := by
  induction items using List.reverseRecOn with
  | nil => simp [distinct, classes]
  | append_singleton items x ih =>
    rw [distinct_append_singleton, any_distinct htrans, List.countP_append,
      List.countP_singleton, classes_append_singleton]
    by_cases hself : same x x = true
    · by_cases hany : items.any (same x) = true
      · have hold := (classOf_mem_classes_iff htrans hsymm hself items).mpr hany
        rw [if_pos hany, if_pos hself, Set.insert_eq_of_mem hold, ih, hself]
        rfl
      · have hnew := mt (classOf_mem_classes_iff htrans hsymm hself items).mp hany
        rw [if_neg hany, if_pos hself, Set.ncard_insert_of_notMem hnew (finite_classes same items),
          List.length_append, ih, hself, List.length_singleton, Nat.add_right_comm]
        rfl
    · have hany : ¬items.any (same x) = true := by
        intro h
        obtain ⟨y, _, hxy⟩ := List.any_eq_true.mp h
        exact hself (same_self_of_same htrans hsymm hxy)
      rw [if_neg hany, if_neg hself, List.length_append, ih, List.length_singleton,
        Bool.eq_false_of_not_eq_true hself, Nat.add_assoc]
      rfl

theorem length_distinct_perm {items items' : List α} (h : items.Perm items') :
    (distinct same items).length = (distinct same items').length := by
  have hclasses : classes same items = classes same items' := by
    simp only [classes, h.mem_iff]
  rw [length_distinct htrans hsymm, length_distinct htrans hsymm, hclasses, h.countP_eq]

end

end LuaBytecode.Comparison
