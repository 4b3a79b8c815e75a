import Mathlib.Algebra.Group.Basic
import Mathlib.Algebra.Ring.Int.Defs
import Mathlib.Data.Int.ModEq
import Mathlib.Data.List.Destutter
import Mathlib.Tactic.Abel

/-! Walks through states, with a weight on each step, and walks through coded integers. -/
namespace OrazioLogger.Walks

variable {S T M : Type}

section Total
variable [AddCommGroup M] {weigh : S → S → M}

def total (weigh : S → S → M) : List S → M
  | s :: t :: rest => weigh s t + total weigh (t :: rest)
  | _ => 0

@[simp] theorem totalNil : total weigh [] = 0 := rfl

@[simp] theorem totalSingle (s : S) : total weigh [s] = 0 := rfl

@[simp] theorem totalStep (s t : S) (rest : List S) :
    total weigh (s :: t :: rest) = weigh s t + total weigh (t :: rest) := rfl

theorem totalMap (f : T → S) (walk : List T) : total weigh (walk.map f) = total (fun a b => weigh (f a) (f b)) walk := by
  induction walk with
  | nil => rfl
  | cons a rest ih =>
    cases rest with
    | nil => rfl
    | cons b rest => exact congrArg _ ih

/- Two parts of a walk that meet in `s`. -/
theorem totalAppend (first : List S) (s : S) (second : List S) :
    total weigh (first ++ s :: second) = total weigh (first ++ [s]) + total weigh (s :: second) := by
  induction first with
  | nil => simp
  | cons a rest ih =>
    cases rest with
    | nil => simp
    | cons b rest =>
      simp only [List.cons_append, totalStep] at ih ⊢
      rw [ih, add_assoc]

theorem totalTelescopes (height : S → M) (s : S) (walk : List S) :
    total (fun a b => height b - height a) (s :: walk) = height (walk.getLastD s) - height s := by
  induction walk generalizing s with
  | nil => simp
  | cons t rest ih =>
    rw [totalStep, ih, List.getLastD_cons]
    abel

theorem totalCongr {other : S → S → M} {Steps : S → S → Prop} (same : ∀ a b, Steps a b → weigh a b = other a b)
    {walk : List S} (steps : walk.IsChain Steps) : total weigh walk = total other walk := by
  induction steps with
  | nil => rfl
  | singleton => rfl
  | cons_cons step _ ih => rw [totalStep, totalStep, same _ _ step, ih]

theorem destutterStarts [DecidableEq S] (s : S) (walk : List S) : ∃ later, walk.destutter' (· ≠ ·) s = s :: later := by
  induction walk generalizing s with
  | nil => exact ⟨[], rfl⟩
  | cons t rest ih =>
    by_cases moved : s ≠ t
    · exact ⟨_, List.destutter'_cons_pos _ moved⟩
    · rw [List.destutter'_cons_neg _ moved]
      exact ih s

/- Steps that stay where they are do not count. -/
theorem totalDestutter [DecidableEq S] (still : ∀ a, weigh a a = 0) (walk : List S) :
    total weigh (walk.destutter (· ≠ ·)) = total weigh walk := by
  cases walk with
  | nil => rfl
  | cons s rest =>
    rw [List.destutter_cons']
    induction rest generalizing s with
    | nil => rfl
    | cons t rest ih =>
      by_cases moved : s ≠ t
      · obtain ⟨later, starts⟩ := destutterStarts t rest
        rw [List.destutter'_cons_pos _ moved, starts, totalStep, totalStep, ← ih t, starts]
      · rw [List.destutter'_cons_neg _ moved, ih s, totalStep, ← not_not.mp moved, still, zero_add]

section Reverse
variable (odd : ∀ a b, weigh b a = -weigh a b)
include odd

theorem totalReverse (walk : List S) : total weigh walk.reverse = -total weigh walk := by
  induction walk with
  | nil => simp
  | cons a rest ih =>
    cases rest with
    | nil => simp
    | cons b rest =>
      rw [List.reverse_cons, List.reverse_cons, List.append_assoc, List.singleton_append, totalAppend, ← List.reverse_cons, ih,
        totalStep, totalStep, odd a b, totalSingle, neg_add]
      abel

/- A walk that goes on by the way it came. -/
theorem totalReturns (walk : List S) : total weigh (walk ++ walk.reverse.tail) = 0 := by
  rcases List.eq_nil_or_concat' walk with rfl | ⟨first, s, rfl⟩
  · rfl
  · have back := totalReverse odd (first ++ [s])
    rw [List.reverse_append, List.reverse_singleton, List.singleton_append] at back ⊢
    rw [List.tail_cons, List.append_assoc, List.singleton_append, totalAppend, back, add_neg_cancel]

end Reverse
end Total

/- Weights known up to multiples of `n`. -/
theorem totalModEq {n : Int} {weigh other : S → S → Int} (same : ∀ a b, weigh a b ≡ other a b [ZMOD n]) (walk : List S) :
    total weigh walk ≡ total other walk [ZMOD n] := by
  induction walk with
  | nil => rfl
  | cons a rest ih =>
    cases rest with
    | nil => rfl
    | cons b rest => exact (same a b).add ih

/-! Integers written in a code. -/

section Code
variable {code : Int → S} {weigh : S → S → Int} {Adjacent : S → S → Prop}

def Near (p q : Int) : Prop := p - 1 ≤ q ∧ q ≤ p + 1

/- Positions that spell the states. -/
structure Lifts (code : Int → S) (states : List S) (positions : List Int) : Prop where
  reads : positions.map code = states
  steps : positions.IsChain Near

def displacement : List Int → Int
  | [] => 0
  | p :: rest => rest.getLastD p - p

theorem displacementTotal (positions : List Int) : total (fun p q => q - p) positions = displacement positions := by
  cases positions with
  | nil => rfl
  | cons p rest => exact totalTelescopes id p rest

theorem Lifts.total {states : List S} {positions : List Int} (lifts : Lifts code states positions)
    (decodes : ∀ p q, Near p q → weigh (code p) (code q) = q - p) : total weigh states = displacement positions := by
  rw [← lifts.reads, totalMap, totalCongr decodes lifts.steps, displacementTotal]

theorem liftExists (follows : ∀ p t, Adjacent (code p) t → ∃ q, Near p q ∧ code q = t) {p : Int} {states : List S}
    (adjacent : (code p :: states).IsChain Adjacent) : ∃ positions, Lifts code (code p :: states) (p :: positions) := by
  induction states generalizing p with
  | nil => exact ⟨[], rfl, .singleton p⟩
  | cons t rest ih =>
    obtain ⟨step, later⟩ := List.isChain_cons_cons.mp adjacent
    obtain ⟨q, near, here⟩ := follows p t step
    subst here
    obtain ⟨positions, reads, steps⟩ := ih later
    exact ⟨q :: positions, congrArg _ reads, .cons_cons near steps⟩

end Code

end OrazioLogger.Walks
