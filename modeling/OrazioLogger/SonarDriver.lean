import OrazioLogger.Firmware
import Mathlib.Data.List.Chain

/-! sonar.c of the atmega2560: what the echoes leave in the counters. -/
namespace OrazioLogger.Sonar
open Firmware (sonarsNum)

structure Driver where
  counters : Nat → UInt16
  triggers : UInt8
  echos : UInt8

/- After `Sonar_init`. -/
def init : Driver := ⟨fun _ => 0, 0, 0⟩

/- `1<<s`. -/
def bit (s : Nat) : UInt8 := 1 <<< UInt8.ofNat s

/- A sonar whose bit is set: one of a pattern, or one with its echo high. -/
def Included (pattern : UInt8) (s : Nat) : Prop := pattern &&& bit s ≠ 0

instance (pattern : UInt8) (s : Nat) : Decidable (Included pattern s) := inferInstanceAs (Decidable (_ ≠ _))

def pollPattern (pattern : UInt8) (d : Driver) : Driver :=
  { d with
    triggers := pattern
    counters := (List.range sonarsNum).foldl (fun counters s => Function.update counters s 0) d.counters }

/- `ranges[s]` after `Sonar_get`. -/
def get (d : Driver) (s : Nat) : UInt16 := if d.triggers &&& bit s ≠ 0 then d.counters s else 0

/- The interrupt, with the timer and the pins as it reads them. -/
def interrupt (currentTime : UInt16) (currentEcho : UInt8) (d : Driver) : Driver :=
  { d with
    counters := (List.range sonarsNum).foldl (fun counters s =>
      if ¬ d.triggers &&& bit s ≠ 0 then counters
      else if currentEcho &&& bit s = d.echos &&& bit s then counters
      else if currentEcho &&& bit s ≠ 0 then Function.update counters s currentTime
      else Function.update counters s (currentTime - counters s)) d.counters
    echos := currentEcho }

inductive Event where
  | poll (pattern : UInt8)
  | get
  | interrupt (time : UInt16) (pins : UInt8)
  deriving DecidableEq, Repr

def step (d : Driver) : Event → Driver
  | .poll pattern => pollPattern pattern d
  | .get => d
  | .interrupt time pins => interrupt time pins d

def run (events : List Event) : Driver := events.foldl step init

/-! The bits. -/

theorem bitPower : ∀ s < sonarsNum, (bit s).toBitVec = BitVec.twoPow 8 s := by decide +kernel

theorem powerNonzero : ∀ s < sonarsNum, BitVec.twoPow 8 s ≠ 0#8 := by decide

theorem maskedBit (pattern : UInt8) {s : Nat} (sonar : s < sonarsNum) :
    (pattern &&& bit s).toBitVec = if pattern.toBitVec.getLsbD s then BitVec.twoPow 8 s else 0#8 := by
  rw [UInt8.toBitVec_and, bitPower s sonar, BitVec.and_twoPow]

theorem includedBit (pattern : UInt8) {s : Nat} (sonar : s < sonarsNum) :
    Included pattern s ↔ pattern.toBitVec.getLsbD s = true := by
  have zero : pattern &&& bit s = 0 ↔ (pattern &&& bit s).toBitVec = 0#8 := UInt8.toBitVec_inj.symm
  unfold Included
  rw [ne_eq, zero, maskedBit pattern sonar]
  split
  · rename_i set
    exact ⟨fun _ => set, fun _ => powerNonzero s sonar⟩
  · rename_i clear
    exact ⟨fun nonzero => absurd rfl nonzero, fun set => absurd set clear⟩

theorem maskedSame (a b : UInt8) {s : Nat} (sonar : s < sonarsNum) :
    a &&& bit s = b &&& bit s ↔ (Included a s ↔ Included b s) := by
  rw [includedBit a sonar, includedBit b sonar, ← UInt8.toBitVec_inj, maskedBit a sonar, maskedBit b sonar]
  have nonzero := powerNonzero s sonar
  split <;> split <;> simp_all [nonzero.symm]

theorem includedOr (a b : UInt8) {s : Nat} (sonar : s < sonarsNum) :
    Included (a ||| b) s ↔ Included a s ∨ Included b s := by
  rw [includedBit _ sonar, includedBit _ sonar, includedBit _ sonar, UInt8.toBitVec_or, BitVec.getLsbD_or, Bool.or_eq_true]

theorem includedShift {s t : Nat} (sonar : s < sonarsNum) (other : t < sonarsNum) : Included (bit t) s ↔ t = s := by
  rw [includedBit _ sonar, bitPower t other, BitVec.getLsbD_twoPow]
  have width : t < 8 := other
  simp [width]

theorem includedNothing {pattern : UInt8} : pattern = 0 ↔ ∀ s < sonarsNum, ¬ Included pattern s := by
  constructor
  · rintro rfl s -
    simp [Included]
  · intro nothing
    refine UInt8.toBitVec_inj.mp (BitVec.eq_of_getLsbD_eq fun s sonar => ?_)
    have unset := mt (includedBit pattern sonar).mpr (nothing s sonar)
    simpa using unset

/-! One sonar in the loops over all of them. -/

theorem foldPointwise {V : Type} {change : (Nat → V) → Nat → Nat → V} (value : Nat → V → V)
    (own : ∀ counters s, change counters s s = value s (counters s))
    (others : ∀ counters s t, t ≠ s → change counters s t = counters t) {sonars : List Nat} (once : sonars.Nodup)
    (counters : Nat → V) (s : Nat) :
    sonars.foldl change counters s = if s ∈ sonars then value s (counters s) else counters s := by
  induction sonars generalizing counters with
  | nil => rfl
  | cons t rest ih =>
    obtain ⟨absent, once⟩ := List.nodup_cons.mp once
    rw [List.foldl_cons, ih once]
    by_cases same : s = t
    · subst s
      rw [if_neg absent, if_pos List.mem_cons_self, own]
    · rw [others counters t s same]
      simp only [List.mem_cons, same, false_or]

theorem pollPatternCounters (pattern : UInt8) (d : Driver) {s : Nat} (sonar : s < sonarsNum) :
    (pollPattern pattern d).counters s = 0 := by
  unfold pollPattern
  dsimp only
  rw [foldPointwise (fun _ _ => 0) (fun counters s => Function.update_self ..)
    (fun counters s t apart => Function.update_of_ne apart ..) List.nodup_range, if_pos (List.mem_range.mpr sonar)]

/- What the interrupt makes of the counter of a sonar. -/
def noticed (time : UInt16) (pins : UInt8) (d : Driver) (s : Nat) (counter : UInt16) : UInt16 :=
  if ¬ Included d.triggers s ∨ (Included pins s ↔ Included d.echos s) then counter
  else if Included pins s then time
  else time - counter

theorem interruptCounters (time : UInt16) (pins : UInt8) (d : Driver) {s : Nat} (sonar : s < sonarsNum) :
    (interrupt time pins d).counters s = noticed time pins d s (d.counters s) := by
  let value (s : Nat) (counter : UInt16) : UInt16 :=
    if ¬ d.triggers &&& bit s ≠ 0 then counter
    else if pins &&& bit s = d.echos &&& bit s then counter
    else if pins &&& bit s ≠ 0 then time
    else time - counter
  have same : value s (d.counters s) = noticed time pins d s (d.counters s) := by
    have masks := maskedSame pins d.echos sonar
    unfold noticed
    by_cases ignored : ¬ Included d.triggers s
    · rw [if_pos (.inl ignored)]
      exact if_pos ignored
    by_cases unchanged : Included pins s ↔ Included d.echos s
    · rw [if_pos (.inr unchanged)]
      exact (if_neg ignored).trans (if_pos (masks.mpr unchanged))
    · rw [if_neg (not_or.mpr ⟨ignored, unchanged⟩)]
      exact (if_neg ignored).trans (if_neg (mt masks.mp unchanged))
  unfold interrupt
  dsimp only
  rw [foldPointwise value ?_ ?_ List.nodup_range, if_pos (List.mem_range.mpr sonar), same]
  · intro counters s
    simp only [value]
    split
    · rfl
    split
    · rfl
    split
    · exact Function.update_self ..
    · exact Function.update_self ..
  · intro counters s t apart
    split
    · rfl
    split
    · rfl
    split
    · exact Function.update_of_ne apart ..
    · exact Function.update_of_ne apart ..

/-! The edges of the echo of a sonar, as the interrupts show them. -/

structure Edge where
  time : UInt16
  rising : Bool
  deriving DecidableEq, Repr

/- The pattern of the latest poll, the pins of the latest interrupt and the edges since the latest poll. -/
structure Seen where
  pattern : UInt8
  pins : UInt8
  edges : Nat → List Edge

def Seen.after (seen : Seen) : Event → Seen
  | .poll pattern => { seen with pattern := pattern, edges := fun _ => [] }
  | .get => seen
  | .interrupt time pins => { seen with
      pins := pins
      edges := fun s => if Included pins s ↔ Included seen.pins s then seen.edges s
        else seen.edges s ++ [⟨time, decide (Included pins s)⟩] }

def seenIn (events : List Event) : Seen := events.foldl Seen.after ⟨0, 0, fun _ => []⟩

/- The counter after the edges. -/
def counterAfter (edges : List Edge) : UInt16 :=
  edges.foldl (fun counter edge => if edge.rising then edge.time else edge.time - counter) 0

structure Follows (d : Driver) (seen : Seen) : Prop where
  triggers : d.triggers = seen.pattern
  echos : d.echos = seen.pins
  counters : ∀ s < sonarsNum, Included seen.pattern s → d.counters s = counterAfter (seen.edges s)

theorem Follows.step {d : Driver} {seen : Seen} (follows : Follows d seen) (e : Event) :
    Follows (step d e) (seen.after e) := by
  cases e with
  | poll pattern => exact ⟨rfl, follows.echos, fun s sonar _ => pollPatternCounters pattern d sonar⟩
  | get => exact follows
  | interrupt time pins =>
    refine ⟨follows.triggers, rfl, fun s sonar asked => ?_⟩
    have before := follows.counters s sonar asked
    have triggered : Included d.triggers s := follows.triggers ▸ asked
    change (interrupt time pins d).counters s = _
    rw [interruptCounters time pins d sonar, before]
    unfold noticed Seen.after
    dsimp only
    rw [follows.echos]
    by_cases unchanged : Included pins s ↔ Included seen.pins s
    · rw [if_pos (.inr unchanged), if_pos unchanged]
    · rw [if_neg (not_or.mpr ⟨fun ignored => ignored triggered, unchanged⟩), if_neg unchanged]
      unfold counterAfter
      rw [List.foldl_append]
      simp

theorem runFollows (events : List Event) : Follows (run events) (seenIn events) := by
  induction events using List.reverseRecOn with
  | nil => exact ⟨rfl, rfl, fun s _ asked => absurd (includedNothing.mp rfl s ‹_›) (not_not.mpr asked)⟩
  | append_singleton events e ih =>
    unfold run seenIn
    rw [List.foldl_append, List.foldl_append]
    exact ih.step e

/- The edges of an echo go up and down in turn, and the last one has led to the pins as they are. -/
structure Alternating (seen : Seen) : Prop where
  turns : ∀ s, (seen.edges s).IsChain fun edge next => edge.rising ≠ next.rising
  last : ∀ s, ∀ edge ∈ (seen.edges s).getLast?, edge.rising = decide (Included seen.pins s)

theorem Alternating.step {seen : Seen} (alternating : Alternating seen) (e : Event) : Alternating (seen.after e) := by
  cases e with
  | poll pattern => exact ⟨fun s => .nil, fun s edge last => by cases last⟩
  | get => exact alternating
  | interrupt time pins =>
    refine ⟨fun s => ?_, fun s edge last => ?_⟩
    · have before := alternating.turns s
      unfold Seen.after
      dsimp only
      split
      · exact before
      · rename_i changed
        refine List.isChain_append.mpr ⟨before, .singleton _, fun edge last next first => ?_⟩
        cases Option.mem_some_iff.mp first
        rw [alternating.last s edge last]
        simp only [ne_eq, decide_eq_decide]
        exact fun same => changed same.symm
    · unfold Seen.after at last ⊢
      dsimp only at last ⊢
      split at last
      · rename_i unchanged
        rw [alternating.last s edge last, decide_eq_decide]
        exact unchanged.symm
      · rw [List.getLast?_concat] at last
        cases Option.mem_some_iff.mp last
        rfl

theorem seenAlternating (events : List Event) : Alternating (seenIn events) := by
  induction events using List.reverseRecOn with
  | nil => exact ⟨fun s => .nil, fun s edge last => by cases last⟩
  | append_singleton events e ih =>
    unfold seenIn
    rw [List.foldl_append]
    exact ih.step e

/-! Completed echoes. -/

/- The time from a rising edge to the falling edge after it. -/
def Completed (edges : List Edge) (duration : UInt16) : Prop :=
  ∃ before rise fall after, edges = before ++ rise :: fall :: after ∧ rise.rising = true ∧ fall.rising = false ∧
    duration = fall.time - rise.time

/- The latest edge ends an echo that was seen to begin, or its time happens to say nothing wrong. -/
def Settled (edges : List Edge) : Prop :=
  edges = [] ∨ ∃ before last, edges = before ++ [last] ∧
    (last.rising = false ∧ before ≠ [] ∨ last.time = 0 ∨ Completed edges last.time)

theorem counterAfterLast (edges : List Edge) (last : Edge) : counterAfter (edges ++ [last]) =
    if last.rising then last.time else last.time - counterAfter edges := by
  unfold counterAfter
  rw [List.foldl_append]
  rfl

theorem settledLast (before : List Edge) (last : Edge) : Settled (before ++ [last]) ↔
    last.rising = false ∧ before ≠ [] ∨ last.time = 0 ∨ Completed (before ++ [last]) last.time := by
  constructor
  · rintro (none | ⟨own, edge, same, settled⟩)
    · exact absurd none (List.concat_ne_nil _ _)
    · obtain ⟨rfl, one⟩ := List.append_inj' same rfl
      cases one
      exact settled
  · exact fun settled => .inr ⟨before, last, rfl, settled⟩

theorem counterSettled {edges : List Edge} (turns : edges.IsChain fun edge next => edge.rising ≠ next.rising) :
    (counterAfter edges ≠ 0 → Completed edges (counterAfter edges)) ↔ Settled edges := by
  rcases List.eq_nil_or_concat' edges with rfl | ⟨before, last, rfl⟩
  · exact ⟨fun _ => .inl rfl, fun _ some => absurd rfl some⟩
  rw [settledLast, counterAfterLast]
  have coincides : (last.time ≠ 0 → Completed (before ++ [last]) last.time) ↔
      last.time = 0 ∨ Completed (before ++ [last]) last.time := Decidable.imp_iff_not_or.trans (or_congr_left not_not)
  cases up : last.rising with
  | true =>
    rw [if_pos rfl, coincides]
    simp
  | false =>
    rw [if_neg Bool.false_ne_true]
    rcases List.eq_nil_or_concat' before with rfl | ⟨earlier, rise, rfl⟩
    · have whole : last.time - counterAfter [] = last.time := UInt16.sub_zero _
      rw [whole, coincides]
      simp
    · obtain ⟨-, -, apart⟩ := List.isChain_append.mp turns
      have rising : rise.rising = true := by
        have differ := apart rise (by simp) last (by simp)
        rw [up] at differ
        exact Bool.eq_true_of_not_eq_false differ
      have completed : Completed (earlier ++ [rise] ++ [last]) (last.time - counterAfter (earlier ++ [rise])) := by
        rw [counterAfterLast, if_pos rising]
        exact ⟨earlier, rise, last, [], by simp, rising, up, rfl⟩
      exact ⟨fun _ => .inl ⟨rfl, List.concat_ne_nil _ _⟩, fun _ _ => completed⟩

/- What `Sonar_get` stores for a sonar is zero or the time of a completed echo since the poll. -/
def Reported (events : List Event) (s : Nat) : Prop :=
  get (run events) s ≠ 0 → Completed ((seenIn events).edges s) (get (run events) s)

theorem reportedWhen (events : List Event) {s : Nat} (sonar : s < sonarsNum) :
    Reported events s ↔ (Included (seenIn events).pattern s → Settled ((seenIn events).edges s)) := by
  have follows := runFollows events
  have turns := (seenAlternating events).turns s
  by_cases asked : Included (seenIn events).pattern s
  · have value : get (run events) s = counterAfter ((seenIn events).edges s) :=
      (if_pos (follows.triggers ▸ asked)).trans (follows.counters s sonar asked)
    unfold Reported
    rw [value, counterSettled turns]
    exact ⟨fun settled _ => settled, fun settled => settled asked⟩
  · have value : get (run events) s = 0 := if_neg (follows.triggers ▸ asked)
    exact ⟨fun _ included => absurd included asked, fun _ some => absurd value some⟩

/- In a run every range reported is that of a completed echo exactly when no reading meets an echo that is not. -/
theorem rangesCompleted (events : List Event) :
    (∀ before after, events = before ++ .get :: after → ∀ s < sonarsNum, Reported before s) ↔
      ∀ before after, events = before ++ .get :: after → ∀ s < sonarsNum,
        Included (seenIn before).pattern s → Settled ((seenIn before).edges s) := by
  refine forall_congr' fun before => forall_congr' fun after => forall_congr' fun _ => ?_
  exact forall_congr' fun s => forall_congr' fun sonar => reportedWhen before sonar

/- A reading while the echo is high reports when it began. -/
theorem echoInProgress : ¬ ∀ events before after, events = before ++ Event.get :: after →
    ∀ s < sonarsNum, Reported before s := by
  intro always
  have reported := always [.poll 1, .interrupt 1000 1, .get] [.poll 1, .interrupt 1000 1] [] rfl 0 (by decide)
  obtain ⟨before, rise, fall, after, same, -⟩ := reported (by decide +kernel)
  have lengths := congrArg List.length same
  have one : ((seenIn [.poll 1, .interrupt 1000 1]).edges 0).length = 1 := by decide +kernel
  rw [one, List.length_append, List.length_cons, List.length_cons] at lengths
  omega

/- So does a falling edge of an echo that began before the poll. -/
example : get (run [.poll 1, .interrupt 1000 1, .poll 1, .interrupt 3000 0]) 0 = 3000 := by decide +kernel

end OrazioLogger.Sonar
