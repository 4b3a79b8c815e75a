import OrazioLogger.Drive
import OrazioLogger.SonarDriver
import Mathlib.Data.Finset.Lattice.Fold
import Mathlib.Data.Int.ModEq
import Mathlib.Order.Lattice.Nat

/-! The polls of orazio_sonar.c: the sonars whose pattern is the number of the call in the cycle. -/
namespace OrazioLogger.Firmware
open ByteMemory
open Sonar (Included includedOr includedShift includedNothing)

variable {F : Type}

/- The state after `Orazio_sonarInit` and so many calls of `Orazio_sonarHandle`. -/
def sonarCalls (ranges : Nat → Nat → UInt16) (f : State F) : Nat → State F
  | 0 => (sonarInit f).2
  | n + 1 => sonarHandle (ranges n) (sonarCalls ranges f n)

/- The patterns given to `Sonar_pollPattern` in a call, counted from 1. -/
def pollsIn (ranges : Nat → Nat → UInt16) (f : State F) (call : Nat) : List UInt8 :=
  (sonarCalls ranges f call).sonarPolls.drop (sonarCalls ranges f (call - 1)).sonarPolls.length

def Polled (ranges : Nat → Nat → UInt16) (f : State F) (call s : Nat) : Prop :=
  ∃ pattern ∈ pollsIn ranges f call, Included pattern s

def maxPattern (f : State F) : Nat := (Finset.range sonarsNum).sup fun s => (sonarPattern f s).toNat

/-! The mask. -/

theorem maskIncludes (f : State F) {s : Nat} (sonar : s < sonarsNum) :
    Included (sonarMask f) s ↔ sonarPattern f s ≠ 0 ∧ sonarPattern f s = f.sonarCurrentCycle := by
  have folded : ∀ (sonars : List Nat) (mask : UInt8), (∀ t ∈ sonars, t < sonarsNum) →
      (Included (sonars.foldl (fun mask t =>
        if sonarPattern f t = 0 then mask
        else if sonarPattern f t = f.sonarCurrentCycle then mask ||| (1 <<< UInt8.ofNat t)
        else mask) mask) s ↔
        Included mask s ∨ (s ∈ sonars ∧ sonarPattern f s ≠ 0 ∧ sonarPattern f s = f.sonarCurrentCycle)) := by
    intro sonars
    induction sonars with
    | nil => simp
    | cons t rest ih =>
      intro mask known
      have own := known t List.mem_cons_self
      rw [List.foldl_cons, ih _ fun u among => known u (List.mem_cons_of_mem _ among)]
      split
      · rename_i never
        grind
      split
      · rename_i asked now
        have only : Included (1 <<< UInt8.ofNat t) s ↔ t = s := includedShift sonar own
        rw [includedOr _ _ sonar, only]
        grind
      · rename_i asked later
        grind
  have all := folded (List.range sonarsNum) 0 fun t among => List.mem_range.mp among
  have none : ¬ Included 0 s := includedNothing.mp rfl s sonar
  rw [sonarMask, all]
  exact ⟨fun found => (found.resolve_left none).2, fun due => .inr ⟨List.mem_range.mpr sonar, due⟩⟩

theorem sonarMaskCongr {f later : State F} (params : later.globals .sonarParams = f.globals .sonarParams)
    (cycle : later.sonarCurrentCycle = f.sonarCurrentCycle) : sonarMask later = sonarMask f := by
  have pattern : sonarPattern later = sonarPattern f := funext fun s => congrFun params (4 + s)
  unfold sonarMask
  rw [pattern, cycle]

/-! One call. -/

def counted (f : State F) : State F := { f with sonarReady := false, sonarCurrentCycle := f.sonarCurrentCycle + 1 }

def nextCycle (f : State F) : UInt8 := if (counted f).sonarCurrentCycle > f.sonarMaxCycle then 0 else f.sonarCurrentCycle + 1

def nextPolls (f : State F) : List UInt8 :=
  if (counted f).sonarCurrentCycle > f.sonarMaxCycle ∨ sonarMask (counted f) = 0 then [] else [sonarMask (counted f)]

/- What the schedule depends on. -/
structure Scheduled (f later : State F) : Prop where
  params : later.globals .sonarParams = f.globals .sonarParams
  most : later.sonarMaxCycle = f.sonarMaxCycle
  cycle : later.sonarCurrentCycle = nextCycle f
  polls : later.sonarPolls = f.sonarPolls ++ nextPolls f
  ready : later.sonarReady = true ↔ nextPolls f ≠ []

/- What `Sonar_get` fills in. -/
def rangesRead (ranges : Nat → UInt16) (f : State F) : State F :=
  (List.range sonarsNum).foldl (fun f s => setWord f .sonarStatus (4 + 2 * s) (ranges s)) f

theorem sonarHandleBody (ranges : Nat → UInt16) (f : State F) : sonarHandle ranges f =
    if (counted f).sonarCurrentCycle > f.sonarMaxCycle then { counted f with sonarCurrentCycle := 0 }
    else if sonarMask (counted f) = 0 then counted f
    else { rangesRead ranges (counted f) with
      sonarReady := true
      sonarPolls := (rangesRead ranges (counted f)).sonarPolls ++ [sonarMask (rangesRead ranges (counted f))] } := rfl

theorem rangesReadOnly (ranges : Nat → UInt16) (f : State F) :
    ∃ globals, globals .sonarParams = f.globals .sonarParams ∧ rangesRead ranges f = { f with globals := globals } := by
  have folded : ∀ (sonars : List Nat) (f : State F), ∃ globals, globals .sonarParams = f.globals .sonarParams ∧
      sonars.foldl (fun f s => setWord f .sonarStatus (4 + 2 * s) (ranges s)) f = { f with globals := globals } := by
    intro sonars
    induction sonars with
    | nil => exact fun f => ⟨f.globals, rfl, rfl⟩
    | cons s rest ih =>
      intro f
      obtain ⟨globals, kept, same⟩ := ih (setWord f .sonarStatus (4 + 2 * s) (ranges s))
      exact ⟨globals, kept.trans rfl, same⟩
  exact folded (List.range sonarsNum) f

theorem sonarHandleSchedules (ranges : Nat → UInt16) (f : State F) : Scheduled f (sonarHandle ranges f) := by
  rw [sonarHandleBody]
  by_cases wraps : (counted f).sonarCurrentCycle > f.sonarMaxCycle
  · have polls : nextPolls f = [] := if_pos (.inl wraps)
    have cycle : nextCycle f = 0 := if_pos wraps
    rw [if_pos wraps]
    exact ⟨rfl, rfl, cycle.symm, by rw [polls, List.append_nil]; rfl, by simp [polls, counted]⟩
  have cycle : nextCycle f = f.sonarCurrentCycle + 1 := if_neg wraps
  rw [if_neg wraps]
  by_cases none : sonarMask (counted f) = 0
  · have polls : nextPolls f = [] := if_pos (.inr none)
    rw [if_pos none]
    exact ⟨rfl, rfl, cycle.symm, by rw [polls, List.append_nil]; rfl, by simp [polls, counted]⟩
  · have polls : nextPolls f = [sonarMask (counted f)] := if_neg (not_or.mpr ⟨wraps, none⟩)
    obtain ⟨globals, kept, same⟩ := rangesReadOnly ranges (counted f)
    have mask : sonarMask (rangesRead ranges (counted f)) = sonarMask (counted f) := by
      rw [same]
      exact sonarMaskCongr kept rfl
    rw [if_neg none, mask, same]
    exact ⟨kept, rfl, cycle.symm, by rw [polls]; rfl, by simp [polls]⟩

/-! Any number of calls. -/

theorem sonarInitMost (f : State F) : (sonarInit f).2.sonarMaxCycle.toNat = maxPattern f := by
  have first : ∀ n, ((List.range n).foldl (fun most s => if most < sonarPattern f s then sonarPattern f s else most) 0).toNat =
      (Finset.range n).sup fun s => (sonarPattern f s).toNat := by
    intro n
    induction n with
    | zero => rfl
    | succ n ih =>
      rw [List.range_succ, List.foldl_append, List.foldl_cons, List.foldl_nil, Finset.range_add_one, Finset.sup_insert, ← ih]
      split
      · rename_i more
        exact (max_eq_left (UInt8.lt_iff_toNat_lt.mp more).le).symm
      · rename_i most
        exact (max_eq_right (UInt8.le_iff_toNat_le.mp (UInt8.not_lt.mp most))).symm
  exact first sonarsNum

theorem sonarCallsKept (ranges : Nat → Nat → UInt16) (f : State F) (n : Nat) :
    (sonarCalls ranges f n).globals .sonarParams = f.globals .sonarParams ∧
      (sonarCalls ranges f n).sonarMaxCycle.toNat = maxPattern f := by
  induction n with
  | zero => exact ⟨rfl, sonarInitMost f⟩
  | succ n ih =>
    have step := sonarHandleSchedules (ranges n) (sonarCalls ranges f n)
    exact ⟨step.params.trans ih.1, (congrArg UInt8.toNat step.most).trans ih.2⟩

theorem nextCycleCounts (f : State F) {m n : Nat} (most : f.sonarMaxCycle.toNat = m)
    (cycle : f.sonarCurrentCycle.toNat = n % (m + 1)) : (nextCycle f).toNat = (n + 1) % (m + 1) := by
  have width : m < 256 := by
    rw [← most]
    exact f.sonarMaxCycle.toNat_lt
  have below : n % (m + 1) < m + 1 := Nat.mod_lt n (Nat.succ_pos m)
  have sum : (f.sonarCurrentCycle + 1).toNat = (n % (m + 1) + 1) % 256 := by rw [UInt8.toNat_add, cycle]; rfl
  have division : (n + 1) % (m + 1) = (n % (m + 1) + 1) % (m + 1) := (Nat.mod_add_mod n (m + 1) 1).symm
  unfold nextCycle counted
  dsimp only
  rw [division]
  generalize n % (m + 1) = r at below sum
  split
  · rename_i wraps
    rw [gt_iff_lt, UInt8.lt_iff_toNat_lt, sum, most] at wraps
    have last : r + 1 = m + 1 := by omega
    rw [last, Nat.mod_self]
    rfl
  · rename_i within
    rw [gt_iff_lt, UInt8.lt_iff_toNat_lt, sum, most, not_lt] at within
    rw [sum]
    by_cases last : r = m
    · -- only the largest number wraps to one that is not wraps
      have wraps : m + 1 = 256 := by omega
      rw [last, wraps]
    · rw [Nat.mod_eq_of_lt (by omega : r + 1 < 256), Nat.mod_eq_of_lt (by omega : r + 1 < m + 1)]

theorem sonarCallsCycle (ranges : Nat → Nat → UInt16) (f : State F) (n : Nat) :
    (sonarCalls ranges f n).sonarCurrentCycle.toNat = n % (maxPattern f + 1) := by
  induction n with
  | zero => rfl
  | succ n ih =>
    rw [sonarCalls, (sonarHandleSchedules _ _).cycle]
    exact nextCycleCounts _ (sonarCallsKept ranges f n).2 ih

theorem pollsInNext (ranges : Nat → Nat → UInt16) (f : State F) (n : Nat) :
    pollsIn ranges f (n + 1) = nextPolls (sonarCalls ranges f n) := by
  unfold pollsIn
  rw [Nat.add_sub_cancel, sonarCalls, (sonarHandleSchedules _ _).polls, List.drop_left]

/- A call polls the sonars whose pattern is the number of the call in the cycle. -/
theorem nextPolled (f : State F) {s m n : Nat} (sonar : s < sonarsNum) (most : f.sonarMaxCycle.toNat = m)
    (cycle : f.sonarCurrentCycle.toNat = n % (m + 1)) : (∃ pattern ∈ nextPolls f, Included pattern s) ↔
      sonarPattern f s ≠ 0 ∧ (n + 1) % (m + 1) = (sonarPattern f s).toNat := by
  have counts := nextCycleCounts f most cycle
  have included := maskIncludes (counted f) sonar
  unfold nextCycle at counts
  by_cases wraps : (counted f).sonarCurrentCycle > f.sonarMaxCycle
  · have polls : nextPolls f = [] := if_pos (.inl wraps)
    rw [if_pos wraps] at counts
    rw [polls, ← counts]
    refine ⟨fun found => by simp at found, fun due => absurd (UInt8.toNat_inj.mp due.2).symm due.1⟩
  rw [if_neg wraps] at counts
  have due : Included (sonarMask (counted f)) s ↔
      sonarPattern f s ≠ 0 ∧ (n + 1) % (m + 1) = (sonarPattern f s).toNat := by
    rw [included, ← counts, UInt8.toNat_inj]
    exact and_congr_right fun _ => eq_comm
  by_cases none : sonarMask (counted f) = 0
  · have polls : nextPolls f = [] := if_pos (.inr none)
    rw [polls, ← due]
    exact ⟨fun found => by simp at found, fun found => absurd found (includedNothing.mp none s sonar)⟩
  · have polls : nextPolls f = [sonarMask (counted f)] := if_neg (not_or.mpr ⟨wraps, none⟩)
    rw [polls, ← due]
    simp

theorem polledWhen (ranges : Nat → Nat → UInt16) (f : State F) {s : Nat} (sonar : s < sonarsNum) {call : Nat} (first : 1 ≤ call) :
    Polled ranges f call s ↔ sonarPattern f s ≠ 0 ∧ call % (maxPattern f + 1) = (sonarPattern f s).toNat := by
  obtain ⟨n, rfl⟩ := Nat.exists_eq_add_of_le' first
  have kept := sonarCallsKept ranges f n
  have pattern : sonarPattern (sonarCalls ranges f n) s = sonarPattern f s := congrFun kept.1 (4 + s)
  unfold Polled
  rw [pollsInNext, ← pattern]
  exact nextPolled _ sonar kept.2 (sonarCallsCycle ranges f n)

theorem patternBelow (f : State F) {s : Nat} (sonar : s < sonarsNum) : (sonarPattern f s).toNat ≤ maxPattern f :=
  Finset.le_sup (f := fun s => (sonarPattern f s).toNat) (Finset.mem_range.mpr sonar)

theorem sameRemainder {k a b : Nat} (same : a % k = b % k) (order : a ≤ b) (close : b < a + k) : a = b := by
  have divides : k ∣ b - a := (Nat.modEq_iff_dvd' order).mp same
  have none : b - a = 0 := Nat.eq_zero_of_dvd_of_lt divides (by omega)
  omega

/- Among consecutive numbers, as many as the modulus, one has the remainder. -/
theorem onceInWindow {m p : Nat} (below : p ≤ m) (start : Nat) :
    ∃! call, (start < call ∧ call ≤ start + (m + 1)) ∧ call % (m + 1) = p := by
  have part : (start + 1) % (m + 1) < m + 1 := Nat.mod_lt _ (Nat.succ_pos m)
  have wait : (p + (m + 1) - (start + 1) % (m + 1)) % (m + 1) < m + 1 := Nat.mod_lt _ (Nat.succ_pos m)
  have counts : (start + 1 + (p + (m + 1) - (start + 1) % (m + 1)) % (m + 1)) % (m + 1) = p := by
    calc (start + 1 + (p + (m + 1) - (start + 1) % (m + 1)) % (m + 1)) % (m + 1)
        = ((start + 1) % (m + 1) + (p + (m + 1) - (start + 1) % (m + 1))) % (m + 1) := by rw [Nat.add_mod_mod, Nat.mod_add_mod]
      _ = (p + (m + 1)) % (m + 1) := by rw [Nat.add_sub_cancel' (by omega)]
      _ = p := by rw [Nat.add_mod_right, Nat.mod_eq_of_lt (by omega)]
  refine ⟨_, ⟨⟨by omega, by omega⟩, counts⟩, fun other due => ?_⟩
  have same := due.2.trans counts.symm
  rcases Nat.le_total other (start + 1 + (p + (m + 1) - (start + 1) % (m + 1)) % (m + 1)) with order | order
  · exact sameRemainder same order (by omega)
  · exact (sameRemainder same.symm order (by omega)).symm

/- The schedule of the sonars. -/
theorem sonarSchedule (ranges : Nat → Nat → UInt16) (f : State F) :
    (∀ s < sonarsNum, ∀ call ≥ 1, Polled ranges f call s ↔
      sonarPattern f s ≠ 0 ∧ call % (maxPattern f + 1) = (sonarPattern f s).toNat) ∧
    (∀ s < sonarsNum, sonarPattern f s ≠ 0 → ∀ start,
      ∃! call, (start < call ∧ call ≤ start + (maxPattern f + 1)) ∧ Polled ranges f call s) ∧
    (∀ s < sonarsNum, sonarPattern f s = 0 → ∀ call ≥ 1, ¬ Polled ranges f call s) ∧
    (∀ s < sonarsNum, ∀ t < sonarsNum, sonarPattern f s = sonarPattern f t → ∀ call ≥ 1,
      Polled ranges f call s ↔ Polled ranges f call t) ∧
    ∀ call ≥ 1, (pollsIn ranges f call).length ≤ 1 ∧
      ((sonarCalls ranges f call).sonarReady = true ↔ pollsIn ranges f call ≠ []) := by
  refine ⟨fun s sonar call => polledWhen ranges f sonar, fun s sonar asked start => ?_, fun s sonar never call first => ?_,
    fun s sonar t other same call first => ?_, fun call first => ?_⟩
  · obtain ⟨call, found, only⟩ := onceInWindow (patternBelow f sonar) start
    refine ⟨call, ⟨found.1, (polledWhen ranges f sonar (by omega)).mpr ⟨asked, found.2⟩⟩, fun other polled => ?_⟩
    exact only other ⟨polled.1, ((polledWhen ranges f sonar (by omega)).mp polled.2).2⟩
  · rw [polledWhen ranges f sonar first]
    exact fun polled => polled.1 never
  · rw [polledWhen ranges f sonar first, polledWhen ranges f other first, same]
  · obtain ⟨n, rfl⟩ := Nat.exists_eq_add_of_le' first
    rw [pollsInNext]
    refine ⟨?_, (sonarHandleSchedules _ _).ready⟩
    unfold nextPolls
    split <;> simp

end OrazioLogger.Firmware
