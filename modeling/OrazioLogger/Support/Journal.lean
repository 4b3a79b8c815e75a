import Mathlib.Data.List.Induction
import Mathlib.Logic.Function.Basic
import Mathlib.Tactic.Common

/-! A map kept as a journal: a list of entries that only grows, in which the last entry of a key counts. Compacting
keeps one entry for each key. -/
namespace OrazioLogger.Journal

variable {K V : Type} [DecidableEq K]

def latest (journal : List (K × V)) (key : K) : Option V := (journal.reverse.find? fun entry => entry.1 = key).map Prod.snd

/- The entries a journal comes down to, in the order of `keys`. -/
def compact (keys : List K) (journal : List (K × V)) : List (K × V) :=
  keys.filterMap fun key => (latest journal key).map (Prod.mk key)

@[simp] theorem latestNil (key : K) : latest ([] : List (K × V)) key = none := rfl

theorem latestAppend (journal : List (K × V)) (entry : K × V) (key : K) :
    latest (journal ++ [entry]) key = if entry.1 = key then some entry.2 else latest journal key := by
  unfold latest
  rw [List.reverse_append, List.reverse_singleton, List.singleton_append, List.find?_cons]
  by_cases same : entry.1 = key
  · simp only [same, decide_true, Option.map_some, if_true]
  · simp only [same, decide_false, if_false]

theorem compactAppend (first second : List K) (journal : List (K × V)) :
    compact (first ++ second) journal = compact first journal ++ compact second journal := List.filterMap_append

theorem compactMember {keys : List K} {journal : List (K × V)} {entry : K × V} :
    entry ∈ compact keys journal ↔ entry.1 ∈ keys ∧ latest journal entry.1 = some entry.2 := by
  rw [compact, List.mem_filterMap]
  constructor
  · rintro ⟨key, among, same⟩
    obtain ⟨value, found, rfl⟩ := Option.map_eq_some_iff.mp same
    exact ⟨among, found⟩
  · rintro ⟨among, found⟩
    exact ⟨entry.1, among, by rw [found]; rfl⟩

theorem compactLength (keys : List K) (journal : List (K × V)) : (compact keys journal).length ≤ keys.length :=
  List.length_filterMap_le _ _

/- Compacting changes nothing for the keys it is told of. -/
theorem latestCompact (keys : List K) (journal : List (K × V)) (key : K) :
    latest (compact keys journal) key = if key ∈ keys then latest journal key else none := by
  induction keys using List.reverseRecOn with
  | nil => rfl
  | append_singleton keys last ih =>
    rw [compactAppend]
    cases found : latest journal last with
    | none =>
      have nothing : compact [last] journal = [] := by
        rw [compact, List.filterMap_cons, found]
        rfl
      rw [nothing, List.append_nil, ih]
      by_cases same : key = last
      · subst same
        simp [found]
      · simp [same]
    | some value =>
      have one : compact [last] journal = [(last, value)] := by
        rw [compact, List.filterMap_cons, found]
        rfl
      rw [one, latestAppend, ih]
      by_cases same : last = key
      · subst same
        simp [found]
      · have other : key ≠ last := fun equal => same equal.symm
        simp [same, other]

end OrazioLogger.Journal
