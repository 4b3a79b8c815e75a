import Mathlib.Data.List.Basic
import Mathlib.Data.List.Infix
import Mathlib.Tactic.Common

/-! Text cut at line ends and at separators, and tables of what is found between them. -/
namespace OrazioLogger.TextRecords

variable {α κ ν : Type} [DecidableEq α]

/-! Lines, each with its end. -/

def lines (stop : α) : List α → List (List α)
  | [] => []
  | c :: rest =>
    if c = stop then [c] :: lines stop rest
    else
      match lines stop rest with
      | [] => [[c]]
      | line :: others => (c :: line) :: others

theorem linesFirst {stop : α} {x : List α} (inside : stop ∉ x) (rest : List α) :
    lines stop (x ++ stop :: rest) = (x ++ [stop]) :: lines stop rest := by
  induction x with
  | nil => simp [lines]
  | cons c x ih =>
    obtain ⟨other, inside⟩ := not_or.mp (mt List.mem_cons.mpr inside)
    rw [List.cons_append, lines, if_neg (Ne.symm other), ih inside]
    rfl

theorem linesOf {stop : α} {pieces : List (List α)} (inside : ∀ x ∈ pieces, stop ∉ x) :
    lines stop (pieces.flatMap fun x => x ++ [stop]) = pieces.map fun x => x ++ [stop] := by
  induction pieces with
  | nil => rfl
  | cons x rest ih =>
    rw [List.flatMap_cons, List.append_assoc, List.singleton_append, linesFirst (inside x List.mem_cons_self),
      ih fun y among => inside y (List.mem_cons_of_mem x among)]
    rfl

/-! Pieces between separators, from the left; none overlap. -/

/- `skip` characters still belong to a separator, `piece` is what is read of the piece. -/
def splitFrom (sep : List α) : Nat → List α → List α → List (List α)
  | _, piece, [] => [piece]
  | skip + 1, piece, _ :: rest => splitFrom sep skip piece rest
  | 0, piece, c :: rest =>
    if sep.isPrefixOf (c :: rest) then piece :: splitFrom sep (sep.length - 1) [] rest
    else splitFrom sep 0 (piece ++ [c]) rest

def split (sep text : List α) : List (List α) := splitFrom sep 0 [] text

theorem splitSkip (sep : List α) (skipped piece rest : List α) :
    splitFrom sep skipped.length piece (skipped ++ rest) = splitFrom sep 0 piece rest := by
  induction skipped with
  | nil => rfl
  | cons c skipped ih => exact ih

/- A piece without the first character of the separator ends where the separator comes. -/
theorem splitFirst {a : α} (tail : List α) {x : List α} (inside : a ∉ x) (rest : List α) :
    split (a :: tail) (x ++ (a :: tail) ++ rest) = x :: split (a :: tail) rest := by
  have from_ : ∀ piece, splitFrom (a :: tail) 0 piece (x ++ (a :: tail) ++ rest) =
      (piece ++ x) :: split (a :: tail) rest := by
    induction x with
    | nil =>
      intro piece
      have here : (a :: tail).isPrefixOf (a :: (tail ++ rest)) = true :=
        List.isPrefixOf_iff_prefix.mpr (List.prefix_append (a :: tail) rest)
      rw [List.nil_append, List.append_nil, List.cons_append, splitFrom, if_pos here]
      exact congrArg (piece :: ·) (splitSkip (a :: tail) tail [] rest)
    | cons c x ih =>
      intro piece
      obtain ⟨other, inside⟩ := not_or.mp (mt List.mem_cons.mpr inside)
      have elsewhere : ¬ (a :: tail).isPrefixOf (c :: (x ++ (a :: tail) ++ rest)) = true := fun here =>
        other (List.cons_prefix_cons.mp (List.isPrefixOf_iff_prefix.mp here)).1
      rw [List.cons_append, List.cons_append, splitFrom, if_neg elsewhere, ih inside, List.append_assoc]
      rfl
  exact from_ []

/- A text without a separator is one piece. -/
theorem splitWhole {sep x : List α} (free : ¬ sep <:+: x) : split sep x = [x] := by
  have from_ : ∀ piece, splitFrom sep 0 piece x = [piece ++ x] := by
    induction x with
    | nil => exact fun piece => congrArg ([·]) (List.append_nil piece).symm
    | cons c x ih =>
      intro piece
      have elsewhere : ¬ sep.isPrefixOf (c :: x) = true := fun here =>
        free (List.isPrefixOf_iff_prefix.mp here).isInfix
      rw [splitFrom, if_neg elsewhere, ih fun later => free (later.trans (List.suffix_cons c x).isInfix), List.append_assoc]
      rfl
  exact from_ []

omit [DecidableEq α] in
theorem freeOfFirst {a : α} {x : List α} (inside : a ∉ x) (tail : List α) : ¬ (a :: tail) <:+: x := fun found =>
  inside (found.subset List.mem_cons_self)

theorem splitIntercalate {a : α} (tail : List α) (first : List α) (others : List (List α))
    (inside : ∀ x ∈ first :: others, a ∉ x) :
    split (a :: tail) ((a :: tail).intercalate (first :: others)) = first :: others := by
  induction others generalizing first with
  | nil =>
    rw [List.intercalate_singleton]
    exact splitWhole (freeOfFirst (inside first List.mem_cons_self) tail)
  | cons second others ih =>
    rw [List.intercalate_cons_cons, splitFirst tail (inside first List.mem_cons_self),
      ih second fun x among => inside x (List.mem_cons_of_mem first among)]

/-! Tables: an item is assigned to its key in place. -/

section Tables
variable [DecidableEq κ]

def assign (table : List (κ × ν)) (key : κ) (value : ν) : List (κ × ν) :=
  match table with
  | [] => [(key, value)]
  | (k, v) :: rest => if k = key then (k, value) :: rest else (k, v) :: assign rest key value

theorem lookupCons [BEq κ] [LawfulBEq κ] (k other : κ) (v : ν) (rest : List (κ × ν)) :
    ((k, v) :: rest).lookup other = if other = k then some v else rest.lookup other := by
  rw [List.lookup_cons]
  by_cases same : other = k
  · rw [if_pos same, beq_iff_eq.mpr same]
  · rw [if_neg same, beq_eq_false_iff_ne.mpr same]

theorem assignLookup [BEq κ] [LawfulBEq κ] (table : List (κ × ν)) (key other : κ) (value : ν) :
    (assign table key value).lookup other = if other = key then some value else table.lookup other := by
  induction table with
  | nil => exact lookupCons key other value []
  | cons item rest ih =>
    obtain ⟨k, v⟩ := item
    rw [assign]
    split
    · rename_i here
      subst k
      rw [lookupCons, lookupCons]
      split <;> rfl
    · rename_i elsewhere
      rw [lookupCons, lookupCons, ih]
      by_cases own : other = k
      · rw [if_pos own, if_pos own, if_neg (own ▸ elsewhere)]
      · rw [if_neg own, if_neg own]

/- A key that is not in the table yet goes to its end. -/
theorem assignNew {table : List (κ × ν)} {key : κ} (fresh : key ∉ table.map Prod.fst) (value : ν) :
    assign table key value = table ++ [(key, value)] := by
  induction table with
  | nil => rfl
  | cons item rest ih =>
    obtain ⟨other, fresh⟩ := not_or.mp (mt List.mem_cons.mpr fresh)
    rw [assign, if_neg (Ne.symm other), ih fresh]
    rfl

end Tables

end OrazioLogger.TextRecords
