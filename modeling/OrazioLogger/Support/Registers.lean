import Mathlib.Tactic.Common
import Mathlib.Logic.Function.Basic

/-! Registers that are shared bit by bit: what is written through one field is not seen through another one. -/
namespace OrazioLogger.Registers

variable {ρ : Type} {w : Nat}

abbrev File (ρ : Type) (w : Nat) := ρ → BitVec w

structure Field (ρ : Type) (w : Nat) where
  register : ρ
  mask : BitVec w
  deriving DecidableEq, Repr

def Field.bit (register : ρ) (k : Nat) : Field ρ w := ⟨register, 1#w <<< k⟩

def Field.whole (register : ρ) : Field ρ w := ⟨register, BitVec.allOnes w⟩

def Field.read (x : Field ρ w) (file : File ρ w) : BitVec w := file x.register &&& x.mask

/- No bit is in both. -/
def Field.Apart (x y : Field ρ w) : Prop := x.register ≠ y.register ∨ x.mask &&& y.mask = 0#w

instance [DecidableEq ρ] (x y : Field ρ w) : Decidable (x.Apart y) := inferInstanceAs (Decidable (_ ∨ _))

section Read
variable {x : Field ρ w} {file : File ρ w}

theorem readWhole (r : ρ) (file : File ρ w) : (Field.whole r).read file = file r := BitVec.and_allOnes

theorem bitMask {k : Nat} (inside : k < w) (r : ρ) : (Field.bit r k : Field ρ w).mask ≠ 0#w := by
  intro zero
  have here := congrArg (fun v => v.getLsbD k) zero
  simp [Field.bit, inside] at here

/- `(value >> k) & 1` asks for the field of the bit. -/
theorem shiftedBit {k : Nat} (inside : k < w) (r : ρ) (file : File ρ w) :
    (file r >>> k) &&& 1#w = if (Field.bit r k).read file = 0#w then 0#w else 1#w := by
  have zero : (Field.bit r k).read file = 0#w ↔ (file r).getLsbD k = false := by
    constructor
    · intro none
      have here := congrArg (fun v => v.getLsbD k) none
      simpa [Field.read, Field.bit, inside] using here
    · intro clear
      apply BitVec.eq_of_getLsbD_eq
      intro i low
      by_cases same : i = k
      · subst same
        change (file r &&& _).getLsbD i = _
        rw [BitVec.getLsbD_and, clear, Bool.false_and, BitVec.getLsbD_zero]
      · simp only [Field.read, Field.bit, BitVec.getLsbD_and, BitVec.getLsbD_shiftLeft, BitVec.getLsbD_one, BitVec.getLsbD_zero]
        have apart : ¬ (¬ i < k ∧ i - k = 0) := by omega
        grind
  apply BitVec.eq_of_getLsbD_eq
  intro i low
  split
  · rename_i none
    have clear := zero.mp none
    simp only [BitVec.getLsbD_and, BitVec.getLsbD_ushiftRight, BitVec.getLsbD_one, BitVec.getLsbD_zero]
    by_cases first : i = 0
    · subst first
      simp [clear]
    · simp [first]
  · rename_i some
    have set : (file r).getLsbD k = true := by
      rw [← Bool.not_eq_false]
      exact fun clear => some (zero.mpr clear)
    simp only [BitVec.getLsbD_and, BitVec.getLsbD_ushiftRight, BitVec.getLsbD_one]
    by_cases first : i = 0
    · subst first
      simp [set]
    · simp [first]

end Read

/-! What is written. -/

section Only
variable {xs : List (Field ρ w)} {file mid later : File ρ w}

/- Only the fields of the list may be seen to change. -/
def OnlyFields (xs : List (Field ρ w)) (file later : File ρ w) : Prop :=
  ∀ y : Field ρ w, (∀ x ∈ xs, y.Apart x) → y.read later = y.read file

theorem OnlyFields.refl (xs : List (Field ρ w)) (file : File ρ w) : OnlyFields xs file file := fun _ _ => rfl

theorem OnlyFields.trans (first : OnlyFields xs file mid) (second : OnlyFields xs mid later) : OnlyFields xs file later :=
  fun y apart => (second y apart).trans (first y apart)

end Only

section Write
variable [DecidableEq ρ] {x y : Field ρ w} {file : File ρ w}

/- `*register |= mask` -/
def Field.set (x : Field ρ w) (file : File ρ w) : File ρ w := Function.update file x.register (file x.register ||| x.mask)

/- `*register &= ~mask` -/
def Field.clear (x : Field ρ w) (file : File ρ w) : File ρ w := Function.update file x.register (file x.register &&& ~~~x.mask)

/- `*register = v` -/
def assign (r : ρ) (v : BitVec w) (file : File ρ w) : File ρ w := Function.update file r v

theorem readSet (x : Field ρ w) (file : File ρ w) : x.read (x.set file) = x.mask := by
  unfold Field.read Field.set
  rw [Function.update_self]
  ext i
  simp only [BitVec.getElem_and, BitVec.getElem_or]
  grind

theorem readClear (x : Field ρ w) (file : File ρ w) : x.read (x.clear file) = 0#w := by
  unfold Field.read Field.clear
  rw [Function.update_self]
  ext i
  simp only [BitVec.getElem_and, BitVec.getElem_not, BitVec.getElem_zero]
  grind

theorem readAssign (r : ρ) (v : BitVec w) (file : File ρ w) : (Field.whole r).read (assign r v file) = v := by
  rw [readWhole, assign, Function.update_self]

/- A field that is apart from `x` does not see the bits of `x` change. -/
theorem readApart (apart : y.Apart x) {v : BitVec w} (kept : v &&& ~~~x.mask = file x.register &&& ~~~x.mask) :
    y.read (Function.update file x.register v) = y.read file := by
  unfold Field.read
  by_cases same : y.register = x.register
  · rw [same, Function.update_self]
    have disjoint : y.mask &&& x.mask = 0#w := apart.resolve_left (not_not.mpr same)
    ext i low
    have here := congrArg (fun v => v.getLsbD i) kept
    have both := congrArg (fun v => v.getLsbD i) disjoint
    simp only [BitVec.getLsbD_and, BitVec.getLsbD_not, low, decide_true, Bool.true_and, BitVec.getLsbD_zero] at here both
    rw [BitVec.getElem_and, BitVec.getElem_and, ← BitVec.getLsbD_eq_getElem, ← BitVec.getLsbD_eq_getElem,
      ← BitVec.getLsbD_eq_getElem]
    grind
  · rw [Function.update_of_ne same]

theorem apartSet (apart : y.Apart x) (file : File ρ w) : y.read (x.set file) = y.read file := by
  refine readApart apart ?_
  ext i
  simp only [BitVec.getElem_and, BitVec.getElem_or, BitVec.getElem_not]
  grind

theorem apartClear (apart : y.Apart x) (file : File ρ w) : y.read (x.clear file) = y.read file := by
  refine readApart apart ?_
  ext i
  simp only [BitVec.getElem_and, BitVec.getElem_not]
  grind

theorem apartAssign {r : ρ} (apart : y.Apart (Field.whole r)) (v : BitVec w) (file : File ρ w) :
    y.read (assign r v file) = y.read file :=
  @readApart _ _ _ (Field.whole r) y file apart v (by simp [Field.whole])

variable {xs : List (Field ρ w)}

theorem onlySet (member : x ∈ xs) (file : File ρ w) : OnlyFields xs file (x.set file) :=
  fun _ apart => apartSet (apart x member) file

theorem onlyClear (member : x ∈ xs) (file : File ρ w) : OnlyFields xs file (x.clear file) :=
  fun _ apart => apartClear (apart x member) file

theorem onlyAssign {r : ρ} (member : Field.whole r ∈ xs) (v : BitVec w) (file : File ρ w) : OnlyFields xs file (assign r v file) :=
  fun _ apart => apartAssign (apart _ member) v file

end Write

end OrazioLogger.Registers
