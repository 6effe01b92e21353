import Mathlib.Data.List.Sort

/-!
Order statistics of a list by counting: an element of the sorted list is at least
a bound exactly when enough elements are.
-/

namespace Dragonchain.Median

open List

variable {α : Type} [LinearOrder α] {index : Nat} {items : List α}

lemma le_getElem_sorted (sorted : items.Pairwise (· ≤ ·)) (inside : index < items.length) (bound : α) :
    bound ≤ items[index] ↔ items.length - index ≤ items.countP (bound ≤ ·) := by
  induction items generalizing index with
  | nil => cases inside
  | cons item rest ih =>
    rw [pairwise_cons] at sorted
    cases index with
    | zero =>
      constructor
      · intro reached
        have all : ∀ other ∈ item :: rest, decide (bound ≤ other) = true := by
          intro other member
          rcases mem_cons.mp member with rfl | later
          · exact decide_eq_true reached
          · exact decide_eq_true (reached.trans (sorted.1 other later))
        rw [countP_eq_length.mpr all]
        exact Nat.sub_le _ _
      · intro enough
        have all := countP_eq_length.mp (le_antisymm countP_le_length enough)
        exact of_decide_eq_true (all item mem_cons_self)
    | succ index =>
      have within : index < rest.length := Nat.lt_of_succ_lt_succ inside
      rw [getElem_cons_succ, ih sorted.2 within, length_cons, Nat.add_sub_add_right]
      by_cases reached : bound ≤ item
      · -- Everything from the first item on reaches the bound.
        have all : rest.countP (bound ≤ ·) = rest.length :=
          countP_eq_length.mpr fun other later => decide_eq_true (reached.trans (sorted.1 other later))
        rw [countP_cons, if_pos (decide_eq_true reached), all]
        omega
      · rw [countP_cons, if_neg (by simpa using reached), Nat.add_zero]

/-- The element at `index` of a list in order, by counting in the list as it is. -/
lemma le_getD_insertionSort (inside : index < items.length)
    (bound fallback : α) : bound ≤ (items.insertionSort (· ≤ ·)).getD index fallback ↔
      items.length - index ≤ items.countP (bound ≤ ·) := by
  have same := perm_insertionSort (· ≤ ·) items
  have within : index < (items.insertionSort (· ≤ ·)).length := by rwa [length_insertionSort]
  rw [getD_eq_getElem?_getD, getElem?_eq_getElem within, Option.getD_some,
    le_getElem_sorted (pairwise_insertionSort (· ≤ ·) items) within, same.length_eq,
    same.countP_eq]

end Dragonchain.Median
