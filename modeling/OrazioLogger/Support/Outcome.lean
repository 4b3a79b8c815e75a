import Mathlib.Tactic.Common

/-! Rules for computations that return a value or end early: what is known of the
value, and which of the early ends are allowed. -/
namespace OrazioLogger.Outcome

variable {ε α β : Type} {allowed : ε → Prop} {after : α → Prop}

def Ends (allowed : ε → Prop) (after : α → Prop) : Except ε α → Prop
  | .ok a => after a
  | .error e => allowed e

theorem Ends.bind {x : Except ε α} {f : α → Except ε β} {final : β → Prop} (first : Ends allowed after x)
    (next : ∀ a, after a → Ends allowed final (f a)) : Ends allowed final (x >>= f) := by
  cases x with
  | ok a => exact next a first
  | error e => exact first

theorem Ends.map {x : Except ε α} {f : α → β} {final : β → Prop} (ends : Ends allowed after x)
    (next : ∀ a, after a → final (f a)) : Ends allowed final (f <$> x) := by
  cases x with
  | ok a => exact next a ends
  | error e => exact ends

theorem Ends.returned {x : Except ε α} {a : α} (ends : Ends allowed after x) (ok : x = .ok a) : after a := by
  subst ok
  exact ends

theorem Ends.early {x : Except ε α} {e : ε} (ends : Ends allowed after x) (error : x = .error e) : allowed e := by
  subst error
  exact ends

theorem bindOk {x : Except ε α} {f : α → Except ε β} {a : α} (ok : x = .ok a) : (x >>= f) = f a := by
  subst ok
  rfl

theorem bindError {x : Except ε α} {f : α → Except ε β} {e : ε} (error : x = .error e) : (x >>= f) = .error e := by
  subst error
  rfl

end OrazioLogger.Outcome
