import Mathlib.Data.List.Basic
import Mathlib.Logic.Function.Basic
import Mathlib.Tactic.Common

/-! Chains of cells in a memory: a cell holds a datum and the address of the next cell, or none at the end. -/
namespace OrazioLogger.PointerChain

variable {A D : Type}

/- The cell at an address, for what is seen of the memory. -/
abbrev View (A D : Type) := A → Option (D × Option A)

inductive Chain (view : View A D) : Option A → List (A × D) → Prop where
  | null : Chain view none []
  | cell {a : A} {d : D} {next : Option A} {rest : List (A × D)} (here : view a = some (d, next))
      (more : Chain view next rest) : Chain view (some a) ((a, d) :: rest)

inductive Reaches (view : View A D) : Option A → A → Prop where
  | here {a : A} {d : D} {next : Option A} (cell : view a = some (d, next)) : Reaches view (some a) a
  | further {a b : A} {d : D} {next : Option A} (cell : view a = some (d, next)) (more : Reaches view next b) :
      Reaches view (some a) b

/- The addresses of the cells. -/
def addresses (cells : List (A × D)) : List A := cells.map Prod.fst

variable {view later : View A D} {p : Option A} {cells : List (A × D)}

@[simp] theorem addressesNil : addresses ([] : List (A × D)) = [] := rfl

@[simp] theorem addressesCons (a : A) (d : D) : addresses ((a, d) :: cells) = a :: addresses cells := rfl

theorem Chain.ends (chain : Chain view p cells) : p = none ↔ cells = [] := by
  cases chain with
  | null => exact ⟨fun _ => rfl, fun _ => rfl⟩
  | cell here more => exact ⟨nofun, nofun⟩

theorem Chain.unique {others : List (A × D)} (chain : Chain view p cells) (other : Chain view p others) :
    cells = others := by
  induction chain generalizing others with
  | null =>
    cases other
    rfl
  | cell here _ ih =>
    cases other with
    | cell there more =>
      rw [here] at there
      cases there
      rw [ih more]

/- From each of its cells a chain goes on as one that is not longer. -/
theorem Chain.onward (chain : Chain view p cells) {a : A} (among : a ∈ addresses cells) :
    ∃ rest, Chain view (some a) rest ∧ rest.length ≤ cells.length := by
  induction chain with
  | null => cases among
  | @cell b d next rest here more ih =>
    rcases List.mem_cons.mp among with rfl | further
    · exact ⟨_, .cell here more, Nat.le_refl _⟩
    · obtain ⟨onward, own, short⟩ := ih further
      exact ⟨onward, own, Nat.le_succ_of_le short⟩

/- A chain that ends does not return to a cell. -/
theorem Chain.nodup (chain : Chain view p cells) : (addresses cells).Nodup := by
  induction chain with
  | null => exact List.nodup_nil
  | @cell a d next rest here more ih =>
    refine List.nodup_cons.mpr ⟨fun again => ?_, ih⟩
    obtain ⟨onward, own, short⟩ := more.onward again
    rw [own.unique (.cell here more)] at short
    exact absurd short (Nat.not_succ_le_self _)

theorem Chain.frame (chain : Chain view p cells) (same : ∀ a ∈ addresses cells, later a = view a) :
    Chain later p cells := by
  induction chain with
  | null => exact .null
  | cell here more ih =>
    have own := same _ List.mem_cons_self
    exact .cell (own.trans here) (ih fun a among => same a (List.mem_cons_of_mem _ among))

theorem Chain.reaches (chain : Chain view p cells) (a : A) : Reaches view p a ↔ a ∈ addresses cells := by
  induction chain with
  | null => exact ⟨nofun, nofun⟩
  | cell here more ih =>
    constructor
    · intro reached
      cases reached with
      | here => exact List.mem_cons_self
      | further cell reached =>
        rw [here] at cell
        cases cell
        exact List.mem_cons_of_mem _ (ih.mp reached)
    · intro among
      rcases List.mem_cons.mp among with rfl | further
      · exact .here here
      · exact .further here (ih.mpr further)

/- The last cell is the one that points nowhere. -/
theorem Chain.final (chain : Chain view p cells) (a : A) :
    (addresses cells).getLast? = some a ↔ a ∈ addresses cells ∧ ∃ d, view a = some (d, none) := by
  induction chain with
  | null => simp
  | @cell b d next rest here more ih =>
    cases more with
    | null =>
      refine ⟨fun last => ?_, fun found => ?_⟩
      · cases last
        exact ⟨List.mem_cons_self, d, here⟩
      · rw [List.mem_singleton.mp found.1]
        rfl
    | @cell c e after others there more =>
      rw [addressesCons, addressesCons, List.getLast?_cons_cons]
      refine ih.trans ⟨fun found => ⟨List.mem_cons_of_mem _ found.1, found.2⟩, fun found => ⟨?_, found.2⟩⟩
      rcases List.mem_cons.mp found.1 with rfl | further
      · obtain ⟨_, ending⟩ := found.2
        rw [here] at ending
        cases ending
      · exact further

/- The last cell is made to point at a new one. -/
theorem Chain.append {last new : A} {e : D} (chain : Chain view p cells) (ending : (addresses cells).getLast? = some last)
    (linked : ∀ d, view last = some (d, none) → later last = some (d, some new)) (stored : later new = some (e, none))
    (same : ∀ a ∈ addresses cells, a ≠ last → later a = view a) : Chain later p (cells ++ [(new, e)]) := by
  induction chain with
  | null => cases ending
  | @cell a d next rest here more ih =>
    cases more with
    | null =>
      cases ending
      exact .cell (linked d here) (.cell stored .null)
    | @cell c e' after others there more =>
      have own : a ≠ last := fun equal => by
        have distinct := (Chain.cell here (.cell there more)).nodup
        rw [addressesCons, addressesCons, List.getLast?_cons_cons] at ending
        rw [equal] at distinct
        exact (List.nodup_cons.mp distinct).1 (List.mem_of_getLast? ending)
      rw [addressesCons, addressesCons, List.getLast?_cons_cons] at ending
      have rest := ih ending fun b among apart => same b (List.mem_cons_of_mem _ among) apart
      exact .cell ((same a List.mem_cons_self own).trans here) rest

end OrazioLogger.PointerChain
