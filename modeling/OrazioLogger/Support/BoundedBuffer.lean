import Mathlib.Algebra.Order.BigOperators.Group.List
import Mathlib.Tactic.Common

/-! A buffer of bounded capacity that items are offered to: each is taken whole if there is room for it, and otherwise
not at all. -/
namespace OrazioLogger.BoundedBuffer

variable {α : Type} [AddCommMonoid α] [LinearOrder α]

/- Which of the offers are taken, and how full the buffer is after them. -/
def taken (capacity : α) : α → List α → List Bool
  | _, [] => []
  | used, size :: rest =>
    if used + size ≤ capacity then true :: taken capacity (used + size) rest else false :: taken capacity used rest

def filled (capacity : α) : α → List α → α
  | used, [] => used
  | used, size :: rest => filled capacity (if used + size ≤ capacity then used + size else used) rest

theorem takenAppend (capacity used : α) (first second : List α) : taken capacity used (first ++ second) =
    taken capacity used first ++ taken capacity (filled capacity used first) second := by
  induction first generalizing used with
  | nil => rfl
  | cons size rest ih =>
    simp only [List.cons_append, taken, filled]
    split <;> simp [ih]

theorem filledAppend (capacity used : α) (first second : List α) : filled capacity used (first ++ second) =
    filled capacity (filled capacity used first) second := by
  induction first generalizing used with
  | nil => rfl
  | cons size rest ih => exact ih _

/- Everything is taken exactly when all of it fits together. -/
theorem allTaken [IsOrderedAddMonoid α] {capacity used : α} {sizes : List α} (sized : ∀ size ∈ sizes, 0 ≤ size)
    (room : used ≤ capacity) : false ∉ taken capacity used sizes ↔ used + sizes.sum ≤ capacity := by
  induction sizes generalizing used with
  | nil => simpa [taken] using room
  | cons size rest ih =>
    have others : ∀ other ∈ rest, 0 ≤ other := fun other member => sized other (List.mem_cons_of_mem size member)
    have more : used + size ≤ used + (size + rest.sum) :=
      add_le_add_right (le_add_of_nonneg_right (List.sum_nonneg others)) used
    rw [List.sum_cons, taken]
    split
    · rename_i fits
      rw [List.mem_cons, not_or, ih others fits, add_assoc]
      exact ⟨And.right, fun enough => ⟨Bool.false_ne_true, enough⟩⟩
    · rename_i full
      exact ⟨fun none => absurd List.mem_cons_self none, fun enough => absurd (more.trans enough) full⟩

end OrazioLogger.BoundedBuffer
