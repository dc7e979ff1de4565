import Mathlib.Data.List.Basic

/-!
# Pages of a list

A list is cut into pages of one size, numbered from zero (`slice`). As many pages as the length
divided by the size, rounded up, hold the whole list, in its order (`flatMap_slice_count`); those
after them are empty (`slice_ne_nil_iff`).
-/

namespace Paging

variable {α : Type*} {size n total : Nat} {xs : List α}

/-- The page number `n`. -/
def slice (size : Nat) (xs : List α) (n : Nat) : List α := (xs.drop (n * size)).take size

/-- How many pages there are of so many items. -/
def count (size total : Nat) : Nat := (total + size - 1) / size

theorem length_slice (size : Nat) (xs : List α) (n : Nat) :
    (slice size xs n).length = min size (xs.length - n * size) := by
  rw [slice, List.length_take, List.length_drop]

theorem slice_ne_nil_iff (hsize : 0 < size) : slice size xs n ≠ [] ↔ n * size < xs.length := by
  rw [← List.length_pos_iff, length_slice]
  omega

/-- The first pages hold the first items. -/
theorem flatMap_slice (size : Nat) (xs : List α) (n : Nat) :
    (List.range n).flatMap (slice size xs) = xs.take (n * size) := by
  induction n with
  | zero => rw [Nat.zero_mul]; rfl
  | succ n ih =>
    rw [List.range_succ, List.flatMap_append, ih, List.flatMap_singleton, Nat.succ_mul, List.take_add]
    rfl

/-- A page is one of those that are needed exactly when there is an item for it. -/
theorem lt_count_iff (hsize : 0 < size) : n < count size total ↔ n * size < total := by
  rw [count, Nat.lt_div_iff_mul_lt hsize]
  omega

theorem le_count_mul (hsize : 0 < size) : total ≤ count size total * size :=
  Nat.not_lt.1 fun h => Nat.lt_irrefl _ ((lt_count_iff hsize).2 h)

/-- All the pages hold all the items. -/
theorem flatMap_slice_count (hsize : 0 < size) (xs : List α) :
    (List.range (count size xs.length)).flatMap (slice size xs) = xs := by
  rw [flatMap_slice, List.take_of_length_le (le_count_mul hsize)]

end Paging
