import Mathlib.Algebra.Order.Group.Abs
import Mathlib.Tactic.Common

/-! Values limited to an interval around zero, with a dead zone inside.
A value that goes towards another by a limited step. -/
namespace OrazioLogger.Saturation

variable {α : Type} [AddCommGroup α] [LinearOrder α] {bound width v w : α}

def saturate (bound v : α) : α := max (-bound) (min bound v)

def deadZone (width v : α) : α := if |v| < width then 0 else v

/- A command is limited first; what is then too weak is not given at all. -/
def limit (bound width v : α) : α := deadZone width (saturate bound v)

theorem saturateLow (low : v ≤ -bound) : saturate bound v = -bound := by
  rw [saturate, max_eq_left ((min_le_right _ _).trans low)]

theorem limitStrong (v : α) : limit bound width v = 0 ∨ width ≤ |limit bound width v| := by
  unfold limit deadZone
  split
  · exact Or.inl rfl
  · rename_i strong
    exact Or.inr (not_lt.mp strong)

variable [IsOrderedAddMonoid α]

theorem saturateAbs (nonneg : 0 ≤ bound) (v : α) : |saturate bound v| ≤ bound := by
  refine abs_le.mpr ⟨le_max_left _ _, max_le ?_ (min_le_left _ _)⟩
  exact (neg_nonpos.mpr nonneg).trans nonneg

theorem saturateInside (inside : |v| ≤ bound) : saturate bound v = v := by
  rw [saturate, min_eq_right (abs_le.mp inside).2, max_eq_right (abs_le.mp inside).1]

theorem saturateHigh (nonneg : 0 ≤ bound) (high : bound ≤ v) : saturate bound v = bound := by
  rw [saturate, min_eq_left high, max_eq_right (neg_le_self nonneg)]

theorem limitAbs (nonneg : 0 ≤ bound) (v : α) : |limit bound width v| ≤ bound := by
  unfold limit deadZone
  split
  · rwa [abs_zero]
  · exact saturateAbs nonneg v

/-! Limited steps. -/

/- From `v` towards `w`. -/
def approach (step v w : α) : α := v + saturate step (w - v)

variable {step : α}

/- The limits take nothing away from a value between them. -/
theorem saturateNearer (inside : |v| ≤ bound) (w : α) : |saturate bound w - v| ≤ |w - v| := by
  obtain ⟨low, high⟩ := abs_le.mp inside
  rcases le_total w (-bound) with below | above
  · rw [saturateLow below, abs_sub_comm, abs_sub_comm w v, abs_of_nonneg (sub_nonneg.mpr low),
      abs_of_nonneg (sub_nonneg.mpr (below.trans low))]
    exact sub_le_sub_left below v
  rcases le_total w bound with within | above
  · rw [saturateInside (abs_le.mpr ⟨above, within⟩)]
  · have nonneg : 0 ≤ bound := (abs_nonneg v).trans inside
    rw [saturateHigh nonneg above, abs_of_nonneg (sub_nonneg.mpr high), abs_of_nonneg (sub_nonneg.mpr (high.trans above))]
    exact sub_le_sub_right above v

theorem approachStep (nonneg : 0 ≤ step) (v w : α) : |approach step v w - v| ≤ step := by
  rw [approach, add_sub_cancel_left]
  exact saturateAbs nonneg _

/- A limited step from between the limits, and the limits. -/
theorem approachLimited (nonneg : 0 ≤ step) (inside : |v| ≤ bound) (w : α) :
    |saturate bound (approach step v w)| ≤ bound ∧ |saturate bound (approach step v w) - v| ≤ step := by
  have wide : 0 ≤ bound := (abs_nonneg v).trans inside
  exact ⟨saturateAbs wide _, (saturateNearer inside _).trans (approachStep nonneg v w)⟩

/- The step towards zero is as long as it may be. -/
theorem approachZero (nonneg : 0 ≤ step) (inside : |v| ≤ bound) :
    |saturate bound (approach step v 0) - v| = min |v| step := by
  have short : |approach step v 0| ≤ |v| ∧ |approach step v 0 - v| = min |v| step := by
    rw [approach, add_sub_cancel_left, zero_sub]
    rcases le_total |v| step with small | large
    · rw [saturateInside (by rwa [abs_neg]), add_neg_cancel, abs_zero, abs_neg, min_eq_left small]
      exact ⟨abs_nonneg v, rfl⟩
    rcases le_total 0 v with up | down
    · rw [abs_of_nonneg up] at large
      rw [saturateLow (neg_le_neg large), ← sub_eq_add_neg, abs_neg, abs_of_nonneg nonneg, abs_of_nonneg up,
        abs_of_nonneg (sub_nonneg.mpr large), min_eq_right large]
      exact ⟨sub_le_self v nonneg, rfl⟩
    · rw [abs_of_nonpos down] at large
      have still : v + step ≤ 0 := by
        have flipped := neg_le_neg large
        rw [neg_neg] at flipped
        exact le_trans (add_le_add_left flipped step) (neg_add_cancel step).le
      rw [saturateHigh nonneg large, abs_of_nonneg nonneg, abs_of_nonpos down, abs_of_nonpos still, min_eq_right large]
      exact ⟨neg_le_neg (le_add_of_nonneg_right nonneg), rfl⟩
  rw [saturateInside (short.1.trans inside)]
  exact short.2

end OrazioLogger.Saturation
