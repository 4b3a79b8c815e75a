import Mathlib.Algebra.Order.Group.Int
import Mathlib.Data.Int.Cast.Basic
import Mathlib.Data.List.Basic
import Mathlib.Logic.Function.Basic
import Mathlib.Tactic.Common

/-! A ring of `capacity` slots seen through three indices. The slots in use are
computed from `start` and `size` alone; `stop` is redundant and kept in step by
`Valid`. Pushing appends a slot, popping removes the first one. -/
namespace OrazioLogger.RingBuffer

structure Indices where
  start : Int
  stop : Int
  size : Int
  deriving DecidableEq, Repr

def slots (capacity : Int) (r : Indices) : List Int :=
  (List.range r.size.toNat).map fun i : Nat => (r.start + i) % capacity

structure Valid (capacity : Int) (r : Indices) : Prop where
  startLow : 0 ≤ r.start
  startHigh : r.start < capacity
  sizeLow : 0 ≤ r.size
  sizeHigh : r.size ≤ capacity
  stopAt : r.stop = (r.start + r.size) % capacity

def push (capacity : Int) (r : Indices) : Indices :=
  { r with stop := (r.stop + 1) % capacity, size := r.size + 1 }

def pop (capacity : Int) (r : Indices) : Indices :=
  { r with start := (r.start + 1) % capacity, size := r.size - 1 }

variable {capacity : Int} {r : Indices}

theorem validEmpty (positive : 0 < capacity) : Valid capacity ⟨0,0,0⟩ :=
  ⟨le_refl _, positive, le_refl _, positive.le, by simp⟩

theorem Valid.positive (h : Valid capacity r) : 0 < capacity := lt_of_le_of_lt h.startLow h.startHigh

theorem Valid.stopLow (h : Valid capacity r) : 0 ≤ r.stop := by
  rw [h.stopAt]; exact Int.emod_nonneg _ h.positive.ne'

theorem Valid.stopHigh (h : Valid capacity r) : r.stop < capacity := by
  rw [h.stopAt]; exact Int.emod_lt_of_pos _ h.positive

theorem pushValid (h : Valid capacity r) (room : r.size < capacity) : Valid capacity (push capacity r) where
  startLow := h.startLow
  startHigh := h.startHigh
  sizeLow := by have := h.sizeLow; simp only [push]; omega
  sizeHigh := by simp only [push]; omega
  stopAt := by simp only [push, h.stopAt, Int.emod_add_emod, Int.add_assoc]

theorem popValid (h : Valid capacity r) (some : 0 < r.size) : Valid capacity (pop capacity r) where
  startLow := Int.emod_nonneg _ h.positive.ne'
  startHigh := Int.emod_lt_of_pos _ h.positive
  sizeLow := by simp only [pop]; omega
  sizeHigh := by have := h.sizeHigh; simp only [pop]; omega
  stopAt := by
    have shift : r.start + 1 + (r.size - 1) = r.start + r.size := by omega
    simp only [pop, h.stopAt, Int.emod_add_emod, shift]

theorem slotsEmpty (none : r.size = 0) : slots capacity r = [] := by simp [slots, none]

theorem slotsLength (h : Valid capacity r) : ((slots capacity r).length : Int) = r.size := by
  simp [slots, h.sizeLow]

theorem slotsPush (h : Valid capacity r) : slots capacity (push capacity r) = slots capacity r ++ [r.stop] := by
  have grow : (r.size + 1).toNat = r.size.toNat + 1 := by have := h.sizeLow; omega
  have last : (r.size.toNat : Int) = r.size := Int.toNat_of_nonneg h.sizeLow
  simp [slots, push, grow, List.range_succ, last, h.stopAt]

theorem slotsPop (h : Valid capacity r) (some : 0 < r.size) :
    slots capacity r = r.start :: slots capacity (pop capacity r) := by
  have shrink : r.size.toNat = (r.size - 1).toNat + 1 := by omega
  have first : r.start % capacity = r.start := Int.emod_eq_of_lt h.startLow h.startHigh
  have pass (i : Nat) : (r.start + ((i + 1 : Nat) : Int)) % capacity = ((r.start + 1) % capacity + i) % capacity := by
    rw [Int.emod_add_emod]
    congr 1
    omega
  simp only [slots, pop, shrink, List.range_succ_eq_map, List.map_cons, List.map_map]
  refine List.cons_eq_cons.mpr ⟨by simpa using first, List.map_congr_left fun i _ => pass i⟩

/- While there is room, the slot about to be filled is none of those in use. -/
theorem stopUnused (h : Valid capacity r) (room : r.size < capacity) : r.stop ∉ slots capacity r := by
  intro used
  obtain ⟨i, hi, same⟩ := List.mem_map.mp used
  have below : (i : Int) < r.size := by have := List.mem_range.mp hi; omega
  rw [h.stopAt] at same
  have zero : (r.start + r.size - (r.start + i)) % capacity = 0 := Int.emod_eq_emod_iff_emod_sub_eq_zero.mp same.symm
  have small : (r.start + r.size - (r.start + i)) % capacity = r.size - i := by
    rw [show r.start + r.size - (r.start + (i : Int)) = r.size - i by omega]
    exact Int.emod_eq_of_lt (by omega) (by omega)
  omega

/- The elements held, oldest first, when slot contents are given by `buffer`. -/
def contents {α : Type} (buffer : Int → α) (capacity : Int) (r : Indices) : List α :=
  (slots capacity r).map buffer

variable {α : Type} {buffer : Int → α}

theorem contentsEmpty (none : r.size = 0) : contents buffer capacity r = [] := by
  simp [contents, slotsEmpty none]

theorem contentsPush (h : Valid capacity r) (room : r.size < capacity) (x : α) :
    contents (Function.update buffer r.stop x) capacity (push capacity r) = contents buffer capacity r ++ [x] := by
  have kept : (slots capacity r).map (Function.update buffer r.stop x) = (slots capacity r).map buffer := by
    refine List.map_congr_left fun slot used => Function.update_of_ne ?_ _ _
    rintro rfl
    exact stopUnused h room used
  simp [contents, slotsPush h, kept]

theorem contentsPop (h : Valid capacity r) (some : 0 < r.size) :
    contents buffer capacity r = buffer r.start :: contents buffer capacity (pop capacity r) := by
  simp [contents, slotsPop h some]

theorem contentsLength (h : Valid capacity r) : ((contents buffer capacity r).length : Int) = r.size := by
  simpa [contents] using slotsLength h

end OrazioLogger.RingBuffer
