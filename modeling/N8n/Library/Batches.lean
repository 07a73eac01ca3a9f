import Mathlib.Algebra.Order.Group.Nat
import Mathlib.Data.List.Range
import Mathlib.Data.List.TakeDrop

/-!
# Batches of a list

The list is cut into batches of one size, but for the last one, which may be shorter.
-/

namespace Batches

variable {α : Type*} {size : ℕ} {xs : List α}

/-- How many batches there are. -/
def count (size length : ℕ) : ℕ := (length + size - 1) / size

/-- The batch with the given number. -/
def batch (size : ℕ) (xs : List α) (i : ℕ) : List α := (xs.drop (i * size)).take size

theorem lt_count (hsize : 0 < size) {length i : ℕ} : i < count size length ↔ i * size < length := by
  unfold count
  rw [Nat.lt_div_iff_mul_lt hsize]
  omega

theorem length_batch (i : ℕ) : (batch size xs i).length = min size (xs.length - i * size) := by
  rw [batch, List.length_take, List.length_drop]

theorem batch_eq_nil (hsize : 0 < size) {i : ℕ} :
    batch size xs i = [] ↔ count size xs.length ≤ i := by
  rw [← not_lt, lt_count hsize, ← List.length_eq_zero_iff, length_batch]
  omega

/-- Every batch but the last one is full. -/
theorem length_batch_of_lt (hsize : 0 < size) {i : ℕ} (h : i + 1 < count size xs.length) :
    (batch size xs i).length = size := by
  rw [lt_count hsize, Nat.succ_mul] at h
  rw [length_batch]
  omega

theorem flatMap_batch (size : ℕ) (xs : List α) : ∀ k,
    (List.range k).flatMap (batch size xs) = xs.take (k * size)
  | 0 => by simp
  | k + 1 => by
    rw [List.range_succ, List.flatMap_append, flatMap_batch size xs k, Nat.succ_mul, List.take_add]
    simp [batch]

/-- Together the batches are the list. -/
theorem flatMap_batch_count (hsize : 0 < size) :
    (List.range (count size xs.length)).flatMap (batch size xs) = xs := by
  rw [flatMap_batch, List.take_of_length_le]
  exact not_lt.1 ((lt_count hsize).not.1 (lt_irrefl _))

end Batches
