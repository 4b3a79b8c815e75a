import Mathlib.Tactic.Common

/-! Runs of a machine over its inputs, with a condition on each step, and counts that run down on them. -/
namespace OrazioLogger.Countdown

variable {σ ι : Type} {step : σ → ι → σ} {ok : σ → ι → Prop} {strikes : σ → ι → Bool}

def Each (step : σ → ι → σ) (ok : σ → ι → Prop) : σ → List ι → Prop
  | _, [] => True
  | s, i :: rest => ok s i ∧ Each step ok (step s i) rest

instance decideEach [∀ s i, Decidable (ok s i)] : ∀ s inputs, Decidable (Each step ok s inputs)
  | _, [] => instDecidableTrue
  | s, i :: rest => @instDecidableAnd _ _ _ (decideEach (step s i) rest)

theorem eachAppend (s : σ) (first second : List ι) :
    Each step ok s (first ++ second) ↔ Each step ok s first ∧ Each step ok (first.foldl step s) second := by
  induction first generalizing s with
  | nil => simp [Each]
  | cons i rest ih => simp only [List.cons_append, Each, ih, List.foldl_cons, and_assoc]

theorem Each.and {other : σ → ι → Prop} {s : σ} {inputs : List ι} (first : Each step ok s inputs)
    (second : Each step other s inputs) : Each step (fun s i => ok s i ∧ other s i) s inputs := by
  induction inputs generalizing s with
  | nil => trivial
  | cons i rest ih => exact ⟨⟨first.1, second.1⟩, ih first.2 second.2⟩

/- A machine that another one is a view of. -/
theorem Each.seen {τ : Type} {fine : τ → ι → τ} (view : τ → σ) (views : ∀ t i, view (fine t i) = step (view t) i) {t : τ}
    {inputs : List ι} (each : Each step ok (view t) inputs) : Each fine (fun t i => ok (view t) i) t inputs := by
  induction inputs generalizing t with
  | nil => trivial
  | cons i rest ih => exact ⟨each.1, ih (by rw [views]; exact each.2)⟩

/- What is said of the inputs so far holds after each of them. -/
def AfterEach (P : List ι → Prop) (inputs : List ι) : Prop := ∀ past i, past ++ [i] <+: inputs → P (past ++ [i])

theorem afterEachNil (P : List ι → Prop) : AfterEach P [] := fun past i start =>
  absurd (List.prefix_nil.mp start) (List.append_ne_nil_of_right_ne_nil past (List.cons_ne_nil i []))

theorem afterEachSnoc (P : List ι → Prop) (inputs : List ι) (i : ι) :
    AfterEach P (inputs ++ [i]) ↔ AfterEach P inputs ∧ P (inputs ++ [i]) := by
  refine ⟨fun after => ⟨fun past j start => ?_, after inputs i (List.prefix_refl _)⟩, fun ⟨before, last⟩ past j start => ?_⟩
  · exact after past j (start.trans (List.prefix_append _ _))
  · rcases List.prefix_concat_iff.mp start with same | earlier
    · rw [same]
      exact last
    · exact before past j earlier

/- An invariant of the steps is one of the run. -/
theorem Each.kept {Inv : σ → Prop} (keeps : ∀ s i, Inv s → ok s i → Inv (step s i)) {s : σ} {inputs : List ι}
    (each : Each step ok s inputs) (start : Inv s) : Inv (inputs.foldl step s) := by
  induction inputs generalizing s with
  | nil => exact start
  | cons i rest ih => exact ih each.2 (keeps s i start each.1)

/- What the invariant says of a step that is allowed is said of each of them. -/
theorem Each.under {Inv : σ → Prop} {holds : σ → ι → Prop} (keeps : ∀ s i, Inv s → ok s i → Inv (step s i))
    (promises : ∀ s i, Inv s → ok s i → holds s i) {s : σ} {inputs : List ι} (each : Each step ok s inputs) (start : Inv s) :
    Each step holds s inputs := by
  induction inputs generalizing s with
  | nil => trivial
  | cons i rest ih => exact ⟨promises s i start each.1, ih each.2 (keeps s i start each.1)⟩

/- Two conditions that an invariant makes the same. -/
theorem eachCongr (Inv : σ → Prop) {other : σ → ι → Prop} (keeps : ∀ s i, Inv s → Inv (step s i))
    (same : ∀ s i, Inv s → (ok s i ↔ other s i)) {s : σ} {inputs : List ι} (start : Inv s) :
    Each step ok s inputs ↔ Each step other s inputs :=
  ⟨fun each => each.under (fun s i inv _ => keeps s i inv) (fun s i inv => (same s i inv).mp) start,
    fun each => each.under (fun s i inv _ => keeps s i inv) (fun s i inv => (same s i inv).mpr) start⟩

/- How many steps of a run strike. -/
def strokes (step : σ → ι → σ) (strikes : σ → ι → Bool) : σ → List ι → Nat
  | _, [] => 0
  | s, i :: rest => (if strikes s i then 1 else 0) + strokes step strikes (step s i) rest

/- A stroke takes one off the count, the last one gets the work done, and other steps undo nothing. -/
structure RunsDown (step : σ → ι → σ) (ok : σ → ι → Prop) (strikes : σ → ι → Bool) (Inv : σ → Prop) (left : σ → Nat)
    (done : σ → Prop) : Prop where
  keeps : ∀ s i, Inv s → ok s i → Inv (step s i)
  strike : ∀ s i, Inv s → ok s i → strikes s i = true → left (step s i) ≤ left s - 1 ∧ (left s ≤ 1 → done (step s i))
  rest : ∀ s i, Inv s → ok s i → strikes s i = false → left (step s i) ≤ left s ∧ (done s → done (step s i))

theorem RunsDown.done {Inv : σ → Prop} {left : σ → Nat} {done : σ → Prop} (down : RunsDown step ok strikes Inv left done)
    {s : σ} {inputs : List ι} (each : Each step ok s inputs) (start : Inv s) (enough : left s ≤ strokes step strikes s inputs)
    (some : 0 < strokes step strikes s inputs ∨ done s) : done (inputs.foldl step s) := by
  induction inputs generalizing s with
  | nil => exact some.resolve_left (Nat.lt_irrefl 0)
  | cons i rest ih =>
    have inv := down.keeps s i start each.1
    rw [List.foldl_cons]
    simp only [strokes] at enough some
    cases now : strikes s i with
    | true =>
      obtain ⟨less, last⟩ := down.strike s i start each.1 now
      rw [now, if_pos rfl] at enough
      refine ih each.2 inv (by omega) ?_
      rcases Nat.eq_zero_or_pos (strokes step strikes (step s i) rest) with none | more
      · exact Or.inr (last (by omega))
      · exact Or.inl more
    | false =>
      obtain ⟨less, undone⟩ := down.rest s i start each.1 now
      rw [now, if_neg Bool.false_ne_true, Nat.zero_add] at enough some
      exact ih each.2 inv (by omega) (some.imp_right undone)

end OrazioLogger.Countdown
