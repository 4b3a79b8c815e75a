import Mathlib.Data.List.Basic
import Mathlib.Data.List.DropRight
import Mathlib.Data.List.TakeWhile
import Mathlib.Tactic.Common

/-! A text as the words between its separators. -/
namespace OrazioLogger.Words

section Words
variable {α : Type} {sep : α → Bool}

theorem dropWhileShorter {c : α} {l rest : List α} (found : l.dropWhile sep = c :: rest) :
    ((c :: rest).dropWhile fun c => !sep c).length < l.length := by
  have first : sep c = false := by
    have head := List.head_dropWhile_not sep (by rw [found]; exact List.cons_ne_nil c rest)
    simpa only [found, List.head_cons] using head
  have short : (c :: rest).length ≤ l.length := by
    rw [← found]
    exact List.length_dropWhile_le sep l
  have dropped : (rest.dropWhile fun c => !sep c).length ≤ rest.length := List.length_dropWhile_le _ rest
  rw [List.dropWhile_cons_of_pos (by rw [first]; rfl)]
  rw [List.length_cons] at short
  omega

def words (sep : α → Bool) (l : List α) : List (List α) :=
  match _found : l.dropWhile sep with
  | [] => []
  | c :: rest => ((c :: rest).takeWhile fun c => !sep c) :: words sep ((c :: rest).dropWhile fun c => !sep c)
termination_by l.length
decreasing_by exact dropWhileShorter _found

theorem wordsNone {l : List α} (none : l.dropWhile sep = []) : words sep l = [] := by
  rw [words]
  split
  · rfl
  · rename_i found
    rw [none] at found
    contradiction

theorem wordsSome {l : List α} (some : l.dropWhile sep ≠ []) : words sep l =
    ((l.dropWhile sep).takeWhile fun c => !sep c) :: words sep ((l.dropWhile sep).dropWhile fun c => !sep c) := by
  rw [words]
  split
  · rename_i none
    exact absurd none some
  · rename_i found
    rw [found]

theorem wordsBlank {l : List α} : words sep l = [] ↔ l.dropWhile sep = [] := by
  constructor
  · intro none
    by_contra some
    rw [wordsSome some] at none
    exact List.cons_ne_nil _ _ none
  · exact wordsNone

/- Separators in front of a text make no difference. -/
theorem wordsDropWhile (l : List α) : words sep (l.dropWhile sep) = words sep l := by
  have same : (l.dropWhile sep).dropWhile sep = l.dropWhile sep := List.dropWhile_idempotent ..
  cases found : l.dropWhile sep with
  | nil => rw [wordsNone found, ← found, wordsNone (same.trans found)]
  | cons c rest =>
    have some : l.dropWhile sep ≠ [] := by rw [found]; exact List.cons_ne_nil c rest
    rw [← found, wordsSome (same.symm ▸ some), same, wordsSome some]

theorem wordsSeparator {c : α} (separator : sep c = true) (l : List α) : words sep (c :: l) = words sep l := by
  rw [← wordsDropWhile (c :: l), List.dropWhile_cons_of_pos separator, wordsDropWhile]

/- What follows a word begins with a separator, or is empty. -/
theorem wordsTail (l : List α) :
    words sep (l.dropWhile fun c => !sep c).tail = words sep (l.dropWhile fun c => !sep c) := by
  cases found : l.dropWhile fun c => !sep c with
  | nil => rfl
  | cons c rest =>
    have head := List.head_dropWhile_not (fun c => !sep c) (by rw [found]; exact List.cons_ne_nil c rest)
    simp only [found, List.head_cons, Bool.not_eq_false'] at head
    rw [List.tail_cons, wordsSeparator (by simpa using head)]

theorem wordsLength (l : List α) : (words sep l).length ≤ l.length := by
  induction h : l.length using Nat.strong_induction_on generalizing l with
  | _ n ih =>
    subst h
    cases found : l.dropWhile sep with
    | nil =>
      rw [wordsNone found]
      exact Nat.zero_le _
    | cons c rest =>
      have some : l.dropWhile sep ≠ [] := by rw [found]; exact List.cons_ne_nil c rest
      have shorter := dropWhileShorter found
      have others := ih _ shorter _ rfl
      rw [wordsSome some, found, List.length_cons]
      omega

end Words

end OrazioLogger.Words
