import Mathlib.Logic.Function.Basic
import Mathlib.Data.List.Basic
import Mathlib.Tactic.Common

/-! Byte-addressed memory: single stores, blocks read from an address on, and
when a store leaves a block alone. Addresses are unbounded; a null pointer is
the business of whoever holds the pointer. -/
namespace OrazioLogger.ByteMemory

abbrev Addr := Nat
abbrev Memory := Addr → UInt8

def store (m : Memory) (a : Addr) (c : UInt8) : Memory := Function.update m a c

def load (m : Memory) (a : Addr) (n : Nat) : List UInt8 := (List.range n).map fun i => m (a + i)

/- The half-open block of `n` bytes at `a`. -/
def Inside (a n x : Nat) : Prop := a ≤ x ∧ x < a + n
instance (a n x) : Decidable (Inside a n x) := by unfold Inside; infer_instance

def Disjoint (a n b k : Nat) : Prop := a + n ≤ b ∨ b + k ≤ a
instance (a n b k) : Decidable (Disjoint a n b k) := by unfold Disjoint; infer_instance

theorem disjointComm {a n b k : Nat} (h : Disjoint a n b k) : Disjoint b k a n := Or.symm h

theorem disjointOutside {a n b k x : Nat} (apart : Disjoint a n b k) (here : Inside b k x) :
    ¬ Inside a n x := by
  unfold Disjoint Inside at *
  omega

@[simp] theorem storeSame (m : Memory) (a : Addr) (c : UInt8) : store m a c a = c := by
  simp [store]

theorem storeOther {m : Memory} {a x : Addr} (c : UInt8) (other : x ≠ a) : store m a c x = m x := by
  simp [store, other]

@[simp] theorem loadLength (m : Memory) (a n : Nat) : (load m a n).length = n := by simp [load]

theorem loadCongr {m k : Memory} {a n : Nat} (same : ∀ x, Inside a n x → m x = k x) :
    load m a n = load k a n := by
  refine List.map_congr_left fun i hi => same _ ?_
  have := List.mem_range.mp hi
  exact ⟨by omega, by omega⟩

theorem loadStoreOutside {m : Memory} {a n x : Nat} (c : UInt8) (outside : ¬ Inside a n x) :
    load (store m x c) a n = load m a n := by
  refine loadCongr fun y hy => storeOther c ?_
  rintro rfl
  exact outside hy

theorem loadSucc (m : Memory) (a n : Nat) : load m a (n + 1) = load m a n ++ [m (a + n)] := by
  simp [load, List.range_succ]

theorem loadCons (m : Memory) (a n : Nat) : load m a (n + 1) = m a :: load m (a + 1) n := by
  simp only [load, List.range_succ_eq_map, List.map_cons, List.map_map, Nat.add_zero]
  congr 1
  refine List.map_congr_left fun i _ => ?_
  simp [Nat.add_assoc, Nat.add_comm 1 i]

/- A block grows by the byte stored right behind it. -/
theorem loadStoreEnd (m : Memory) (a n : Nat) (c : UInt8) :
    load (store m (a + n) c) a (n + 1) = load m a n ++ [c] := by
  rw [loadSucc, storeSame, loadStoreOutside c (by unfold Inside; omega)]

end OrazioLogger.ByteMemory
