import OrazioLogger.Shell

/-! The completion of a line in orazio_shell_globals.c, which readline asks for a word and its place in the line. -/
namespace OrazioLogger.OrazioShell
open Logger (Text)

def maxCompletions : Nat := 1024

/- `dest` is cut off behind what it has in common with `src`. -/
def commonSubstring : Text → Text → Nat × Text
  | d :: dest, c :: src =>
    if d = c then ((commonSubstring dest src).1 + 1, d :: (commonSubstring dest src).2) else (0, [])
  | _ :: _, [] => (0, [])
  | [], _ => (0, [])

/- `strncmp` finds no difference. -/
def sameStart (n : Nat) (line name : Text) : Bool := line.take n = name.take n

/- The entries from `completions[1]` on are the matches; `completions[0]` is set at the first one. -/
structure Completions where
  common : Text
  found : List Text
  deriving DecidableEq, Repr

/- None is a write past the array. -/
def completeLoop (line : Text) (n : Nat) : List Text → Completions → Option Completions
  | [], c => some c
  | name :: names, c =>
    if c.found.length + 1 < maxCompletions then
      if sameStart n line name then
        completeLoop line n names
          ⟨if c.found = [] then name else (commonSubstring c.common name).2, c.found ++ [name]⟩
      else completeLoop line n names c
    else none

/- The array that is returned, with its last entry for null; without a match there is none. -/
def complete (names : List Text) (line : Text) (start stop : Nat) : Option (Option Completions) :=
  match completeLoop line (stop - start) names ⟨[], []⟩ with
  | none => none
  | some c => if c.found = [] then some none else if c.found.length + 1 < maxCompletions then some (some c) else none

def completeCommand : Text → Nat → Nat → Option (Option Completions) := complete (commands.map Command.name)

def completeVar : Text → Nat → Nat → Option (Option Completions) := complete (variableEntries.map VEntry.name)

def completeLine (line : Text) (start stop : Nat) : Option (Option Completions) :=
  if start = 0 then completeCommand line start stop else completeVar line start stop

/-! What two texts, and any number of them, have in common. -/

/- The longest text that all of them begin with. -/
structure Common (common : Text) (texts : List Text) : Prop where
  begins : ∀ text ∈ texts, common <+: text
  longest : ∀ start : Text, (∀ text ∈ texts, start <+: text) → start <+: common

theorem commonSubstringDest (dest src : Text) : (commonSubstring dest src).2 <+: dest := by
  induction dest, src using commonSubstring.induct with
  | case1 dest c src ih =>
    rw [commonSubstring, if_pos rfl]
    exact List.cons_prefix_cons.mpr ⟨rfl, ih⟩
  | case2 d dest c src other =>
    rw [commonSubstring, if_neg other]
    exact List.nil_prefix
  | case3 d dest => exact List.nil_prefix
  | case4 src => exact List.prefix_rfl

theorem commonSubstringSrc (dest src : Text) : (commonSubstring dest src).2 <+: src := by
  induction dest, src using commonSubstring.induct with
  | case1 dest c src ih =>
    rw [commonSubstring, if_pos rfl]
    exact List.cons_prefix_cons.mpr ⟨rfl, ih⟩
  | case2 d dest c src other =>
    rw [commonSubstring, if_neg other]
    exact List.nil_prefix
  | case3 d dest => exact List.nil_prefix
  | case4 src =>
    rw [commonSubstring]
    exact List.nil_prefix

theorem commonSubstringLongest {start dest src : Text} (first : start <+: dest) (second : start <+: src) :
    start <+: (commonSubstring dest src).2 := by
  induction dest, src using commonSubstring.induct generalizing start with
  | case1 dest c src ih =>
    rw [commonSubstring, if_pos rfl]
    cases start with
    | nil => exact List.nil_prefix
    | cons e start =>
      obtain ⟨same, first⟩ := List.cons_prefix_cons.mp first
      exact List.cons_prefix_cons.mpr ⟨same, ih first (List.cons_prefix_cons.mp second).2⟩
  | case2 d dest c src other =>
    cases start with
    | nil => exact List.nil_prefix
    | cons e start =>
      have left := (List.cons_prefix_cons.mp first).1
      have right := (List.cons_prefix_cons.mp second).1
      exact absurd (left.symm.trans right) other
  | case3 d dest => exact List.prefix_nil.mp second ▸ List.nil_prefix
  | case4 src => exact List.prefix_nil.mp first ▸ List.nil_prefix

theorem Common.one (text : Text) : Common text [text] where
  begins := by simp
  longest start all := all text List.mem_cons_self

theorem Common.more {common : Text} {texts : List Text} (shared : Common common texts) (text : Text) :
    Common (commonSubstring common text).2 (texts ++ [text]) where
  begins other among := by
    rcases List.mem_append.mp among with before | last
    · exact (commonSubstringDest common text).trans (shared.begins other before)
    · rw [List.mem_singleton.mp last]
      exact commonSubstringSrc common text
  longest start all := commonSubstringLongest
    (shared.longest start fun other among => all other (List.mem_append_left _ among)) (all text (by simp))

/-! The loop. -/

structure Completes (c : Completions) : Prop where
  common : c.found ≠ [] → Common c.common c.found

theorem completeLoopFinds {line : Text} {n : Nat} {names : List Text} {c : Completions} (completes : Completes c)
    (room : c.found.length + names.length + 1 < maxCompletions) : ∃ d, completeLoop line n names c = some d ∧
      d.found = c.found ++ names.filter (sameStart n line) ∧ Completes d := by
  induction names generalizing c with
  | nil => exact ⟨c, rfl, (List.append_nil _).symm, completes⟩
  | cons name names ih =>
    rw [List.length_cons] at room
    rw [completeLoop, if_pos (by omega)]
    cases matched : sameStart n line name with
    | false =>
      rw [if_neg Bool.false_ne_true, List.filter_cons_of_neg (by rw [matched]; exact Bool.false_ne_true)]
      exact ih completes (by omega)
    | true =>
      rw [if_pos rfl, List.filter_cons_of_pos matched]
      have next : Completes ⟨if c.found = [] then name else (commonSubstring c.common name).2, c.found ++ [name]⟩ := by
        refine ⟨fun _ => ?_⟩
        dsimp only
        by_cases first : c.found = []
        · rw [if_pos first, first]
          exact .one name
        · rw [if_neg first]
          exact (completes.common first).more name
      obtain ⟨d, ran, found, last⟩ := ih next (by rw [List.length_append, List.length_singleton]; omega)
      refine ⟨d, ran, ?_, last⟩
      rw [found, List.append_assoc]
      rfl

/- Null exactly if no name begins like the word; else the names that do, in their order, behind all they have in common. -/
structure Completed (names : List Text) (line : Text) (n : Nat) (result : Option Completions) : Prop where
  null : result = none ↔ names.filter (sameStart n line) = []
  filled : ∀ c, result = some c → c.found = names.filter (sameStart n line) ∧ Common c.common c.found

theorem completeNames {names : List Text} (few : names.length + 1 < maxCompletions) (line : Text) (start stop : Nat) :
    ∃ result, complete names line start stop = some result ∧ Completed names line (stop - start) result := by
  obtain ⟨d, ran, found, completes⟩ : ∃ d, completeLoop line (stop - start) names ⟨[], []⟩ = some d ∧
      d.found = [] ++ names.filter (sameStart (stop - start) line) ∧ Completes d :=
    completeLoopFinds ⟨fun some => absurd rfl some⟩ (by simpa using few)
  have length : d.found.length ≤ names.length := by
    rw [found]
    exact List.length_filter_le _ _
  rw [List.nil_append] at found
  unfold complete
  rw [ran]
  dsimp only
  by_cases empty : d.found = []
  · refine ⟨none, if_pos empty, ⟨iff_of_true rfl (found ▸ empty), fun _ some => nomatch some⟩⟩
  · refine ⟨some d, ?_, ⟨iff_of_false (fun none => nomatch none) (found ▸ empty), ?_⟩⟩
    · rw [if_neg empty, if_pos (by omega)]
    · rintro c same
      cases same
      exact ⟨found, completes.common empty⟩

/- Whatever the line, and wherever the word is in it. -/
theorem lineCompleted (line : Text) (start stop : Nat) : ∃ result, completeLine line start stop = some result ∧
    Completed (if start = 0 then commands.map Command.name else variableEntries.map VEntry.name) line (stop - start) result := by
  unfold completeLine
  by_cases first : start = 0
  · rw [if_pos first, if_pos first]
    exact completeNames (by decide) line start stop
  · rw [if_neg first, if_neg first]
    have few : (variableEntries.map VEntry.name).length + 1 < maxCompletions := by
      rw [List.length_map]
      decide +kernel
    exact completeNames few line start stop

end OrazioLogger.OrazioShell
