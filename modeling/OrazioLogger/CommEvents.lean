import OrazioLogger.MainSteps
import OrazioLogger.Odometry

/-! `comm_handle`: when the timer sets it, and whether the main loop sees each setting. -/
namespace OrazioLogger.Firmware
open ByteMemory OrazioPackets Countdown
open OrazioClient (load16 load16Store16)

variable {F : Type}

/- The tick on which `onTimerTick` reloads its counter and sets `comm_handle`. -/
def sets (r : Running F) : Action → Bool
  | .tick _ => r.main.tickCounter - 1 == 0
  | .statement _ _ => false

/- Any other tick leaves it. -/
theorem onTimerTickHandle (b : Board F) (s : Main F) (encoders : Nat → UInt16) : (onTimerTick b s encoders).commHandle =
    if s.tickCounter - 1 = 0 then true else s.commHandle := by
  unfold onTimerTick
  change (if s.tickCounter - 1 = 0 then (_ : Main F) else _).commHandle = _
  by_cases last : s.tickCounter - 1 = 0
  · rw [if_pos last, if_pos last]
  · rw [if_neg last, if_neg last]
    rfl

/-! How many ticks apart the settings are. -/

section Period
variable {b : Board F} {r : Running F}

/- For each tick of a run, whether it sets `comm_handle`. -/
def tickSettings (b : Board F) : Running F → List Action → List Bool
  | _, [] => []
  | r, .tick encoders :: rest => sets r (.tick encoders) :: tickSettings b (mainStep b r (.tick encoders)) rest
  | r, .statement ranges line :: rest => tickSettings b (mainStep b r (.statement ranges line)) rest

def Periodic (n : Nat) (settings : List Bool) : Prop := ∀ k setting, settings[k]? = some setting → (setting = true ↔ n ∣ k + 1)

/- The counter has eight bits. -/
def tickPeriod (n : UInt16) : Nat := if n.toNat % 256 = 0 then 256 else n.toNat % 256

/- `since` ticks after a reload. -/
structure Counting (n : UInt16) (since : Nat) (r : Running F) : Prop where
  short : since < tickPeriod n
  counter : r.main.tickCounter.toNat = (tickPeriod n - since) % 256

theorem tickPeriodBounds (n : UInt16) : 0 < tickPeriod n ∧ tickPeriod n ≤ 256 ∧ tickPeriod n % 256 = n.toNat % 256 := by
  unfold tickPeriod
  split <;> omega

theorem reloadedCounting {n : UInt16} (reloaded : r.main.tickCounter = n.toUInt8) : Counting n 0 r := by
  have bounds := tickPeriodBounds n
  refine ⟨bounds.1, ?_⟩
  rw [reloaded, Nat.sub_zero, bounds.2.2]
  exact UInt16.toNat_toUInt8 n

theorem TickOnly.commCycles {f later : State F} (only : TickOnly f later) : commCycles later = commCycles f :=
  only.globals.word (by rintro (other | ⟨other, -⟩) <;> cases other) (by rintro (other | ⟨other, -⟩) <;> cases other)

theorem onTimerTickCounter (b : Board F) (s : Main F) (encoders : Nat → UInt16) : (onTimerTick b s encoders).tickCounter =
    if s.tickCounter - 1 = 0 then (commCycles s.app).toUInt8 else s.tickCounter - 1 := by
  have cycles : commCycles (jointsHandle b encoders s.app) = commCycles s.app := (jointsHandleOnly b encoders s.app).commCycles
  unfold onTimerTick
  by_cases last : s.tickCounter - 1 = 0
  · rw [if_pos last, ← cycles]
    exact congrArg Main.tickCounter (if_pos last)
  · rw [if_neg last]
    exact congrArg Main.tickCounter (if_neg last)

/- Only ticks count. -/
theorem executeCounter (b : Board F) (ranges : Nat → UInt16) (line : Line) (r : Running F) :
    (execute b ranges line r).main.tickCounter = r.main.tickCounter := by
  unfold execute
  cases r.next with
  | sonarHandle => dsimp only; split <;> rfl
  | watchdogReset => dsimp only; split <;> rfl
  | _ => rfl

theorem lastTick (c : UInt8) : c - 1 = 0 ↔ c.toNat = 1 := by
  constructor
  · intro zero
    have one : c = 1 := by rw [← UInt8.sub_add_cancel c 1, zero, UInt8.zero_add]
    rw [one]
    rfl
  · intro one
    rw [show c = 1 from UInt8.toNat_inj.mp one]
    rfl

theorem Counting.due {n : UInt16} {since : Nat} (counting : Counting n since r) :
    r.main.tickCounter - 1 = 0 ↔ since + 1 = tickPeriod n := by
  have bounds := tickPeriodBounds n
  have short := counting.short
  have counter := counting.counter
  rw [lastTick]
  omega

theorem Counting.tick {n : UInt16} {since : Nat} (counting : Counting n since r) (cycles : commCycles r.main.app = n)
    (encoders : Nat → UInt16) :
    Counting n (if since + 1 = tickPeriod n then 0 else since + 1) (mainStep b r (.tick encoders)) := by
  have counter := onTimerTickCounter b r.main encoders
  by_cases last : since + 1 = tickPeriod n
  · rw [if_pos (counting.due.mpr last), cycles] at counter
    rw [if_pos last]
    exact reloadedCounting counter
  · have more : r.main.tickCounter - 1 ≠ 0 := fun zero => last (counting.due.mp zero)
    have bounds := tickPeriodBounds n
    have short := counting.short
    have now := counting.counter
    rw [if_neg more] at counter
    rw [if_neg last]
    refine ⟨by omega, ?_⟩
    change (onTimerTick b r.main encoders).tickCounter.toNat = _
    have borrow : (r.main.tickCounter - 1).toNat = (256 - 1 + r.main.tickCounter.toNat) % 256 := UInt8.toNat_sub ..
    rw [counter, borrow]
    omega

theorem Counting.statement {n : UInt16} {since : Nat} (counting : Counting n since r) (ranges : Nat → UInt16) (line : Line) :
    Counting n since (mainStep b r (.statement ranges line)) :=
  ⟨counting.short, Eq.trans (congrArg UInt8.toNat (executeCounter b ranges line r)) counting.counter⟩

/- The settings come whenever the period has passed since the reload. -/
theorem Counting.settings {n : UInt16} {since : Nat} {actions : List Action} (counting : Counting n since r)
    (held : Each (mainStep b) (fun r _ => commCycles r.main.app = n) r actions) (k : Nat) (setting : Bool)
    (at_ : (tickSettings b r actions)[k]? = some setting) : setting = true ↔ tickPeriod n ∣ since + k + 1 := by
  induction actions generalizing r since k with
  | nil => cases at_
  | cons action rest ih =>
    cases action with
    | statement ranges line => exact ih (counting.statement ranges line) held.2 k at_
    | tick encoders =>
      have later := counting.tick (b := b) held.1 encoders
      cases k with
      | zero =>
        have now : sets r (.tick encoders) = setting := Option.some.inj at_
        rw [← now, sets, beq_iff_eq, counting.due]
        have short := counting.short
        constructor
        · intro last
          exact ⟨1, by omega⟩
        · intro whole
          exact Nat.le_antisymm short (Nat.le_of_dvd (by omega) whole)
      | succ k =>
        rw [ih later held.2 k at_]
        split
        · rename_i last
          rw [show since + (k + 1) + 1 = (0 + k + 1) + tickPeriod n by omega]
          exact (Nat.dvd_add_self_right ..).symm
        · rw [show since + 1 + k + 1 = since + (k + 1) + 1 by omega]

theorem Counting.periodic {n : UInt16} {actions : List Action} (counting : Counting n 0 r) (some : n ≠ 0)
    (held : Each (mainStep b) (fun r _ => commCycles r.main.app = n) r actions)
    (long : n.toNat ≤ (tickSettings b r actions).length) : Periodic n.toNat (tickSettings b r actions) ↔ n.toNat ≤ 256 := by
  have bounds := tickPeriodBounds n
  have positive : 0 < n.toNat := Nat.pos_of_ne_zero fun zero => some (UInt16.toNat_inj.mp zero)
  constructor
  · intro periodic
    by_contra wide
    have inside : tickPeriod n - 1 < (tickSettings b r actions).length := by omega
    have first := counting.settings held (tickPeriod n - 1) _ (List.getElem?_eq_getElem inside)
    have asked := periodic (tickPeriod n - 1) _ (List.getElem?_eq_getElem inside)
    have again : 0 + (tickPeriod n - 1) + 1 = tickPeriod n := by omega
    have back : tickPeriod n - 1 + 1 = tickPeriod n := by omega
    rw [again] at first
    rw [back] at asked
    have whole := Nat.le_of_dvd bounds.1 (asked.mp (first.mpr (Nat.dvd_refl _)))
    omega
  · intro fits k setting at_
    have same : tickPeriod n = n.toNat := by
      unfold tickPeriod
      split <;> omega
    have now := counting.settings held k setting at_
    rwa [same, Nat.zero_add] at now

/- The time step of the odometry is not narrowed. -/
theorem driveInitDt (b : Board F) (f : State F) : (driveInit b f).2.driveController.dt =
    b.floats.mul (b.floats.mul (literal b.floats 1 1000) (b.floats.ofInt (timerPeriodMs f)))
      (b.floats.ofInt (commCycles f).toNat) := by
  have only : DriveOnly f (controllerAt (controllerAt f (leftJointIndex f)).2
      (rightJointIndex (controllerAt f (leftJointIndex f)).2)).2 := (controllerAtOnly _).trans (controllerAtOnly _)
  have period := congrArg signed16 (show load16 _ 12 = load16 (f.globals .systemParams) 12 from
    only.globals.word (fun written => nomatch written.1) fun written => nomatch written.1)
  have cycles := show load16 _ 18 = load16 (f.globals .systemParams) 18 from
    only.globals.word (fun written => nomatch written.1) fun written => nomatch written.1
  change (driveInitController b f).driveController.dt = _
  unfold driveInitController driveControllerInit
  dsimp only
  rw [resetController]
  unfold timerPeriodMs commCycles
  rw [← period, ← cycles]
  rfl

theorem tickHandle (b : Board F) (r : Running F) (encoders : Nat → UInt16) :
    (mainStep b r (.tick encoders)).main.commHandle = (sets r (.tick encoders) || r.main.commHandle) := by
  refine (onTimerTickHandle b r.main encoders).trans ?_
  unfold sets
  by_cases last : r.main.tickCounter - 1 = 0
  · rw [if_pos last, last]
    rfl
  · rw [if_neg last, beq_eq_false_iff_ne.mpr last]
    rfl

/- The settings are `comm_cycles` ticks apart just when it fits into the counter; the drive counts on all of it. -/
theorem commPeriod (b : Board F) (r : Running F) (n : UInt16) (actions : List Action) (some : n ≠ 0)
    (reloaded : r.main.tickCounter = n.toUInt8)
    (held : Each (mainStep b) (fun r _ => commCycles r.main.app = n) r actions)
    (long : n.toNat ≤ (tickSettings b r actions).length) :
    (∀ (r : Running F) encoders,
      (mainStep b r (.tick encoders)).main.commHandle = (sets r (.tick encoders) || r.main.commHandle)) ∧
    (Periodic n.toNat (tickSettings b r actions) ↔ n.toNat ≤ 256) ∧
      ∀ f : State F, commCycles f = n → (driveInit b f).2.driveController.dt =
        b.floats.mul (b.floats.mul (literal b.floats 1 1000) (b.floats.ofInt (timerPeriodMs f))) (b.floats.ofInt n.toNat) :=
  ⟨tickHandle b, (reloadedCounting reloaded).periodic some held long, fun f cycles => cycles ▸ driveInitDt b f⟩

theorem ticksHold {n : UInt16} (encoders : Nat → UInt16) (k : Nat) (start : commCycles r.main.app = n) :
    Each (mainStep b) (fun r _ => commCycles r.main.app = n) r (List.replicate k (.tick encoders)) := by
  induction k generalizing r with
  | zero => trivial
  | succ k ih => exact ⟨start, ih ((onTimerTickOnly b r.main encoders).app.commCycles.trans start)⟩

end Period

/- A cycle of the bench, with ticks before and after the test that starts it. -/
def cycle (before inside : Nat) : List Action :=
  let tick := Action.tick fun _ => 0
  let go := Action.statement (fun _ => 0) ⟨0, [], 0⟩
  List.replicate before tick ++ [go, go] ++ List.replicate inside tick ++ List.replicate 10 go

/- The bench sets `comm_handle` on every second tick, whatever the main loop does in between. -/
theorem benchPeriod : tickSettings bench booted.running (cycle 3 3) = [false, true, false, true, false, true] ∧
    Periodic 2 (tickSettings bench booted.running (cycle 3 3)) :=
  ⟨by decide +kernel, (commPeriod bench booted.running 2 (cycle 3 3) (by decide) (by decide +kernel) (by decide +kernel)
    (by decide +kernel)).2.1.mpr (by decide)⟩

/- With 257 for `comm_cycles` the counter is loaded with 1. -/
def slowStart : Running Rat :=
  Main.running { booted.update (setWord · .systemParams 18 257) with tickCounter := (257 : UInt16).toUInt8 }

theorem everyTickSets : slowStart.main.tickCounter = (257 : UInt16).toUInt8 ∧
    Each (mainStep bench) (fun r _ => commCycles r.main.app = 257) slowStart (List.replicate 257 (.tick fun _ => 0)) ∧
      ¬ Periodic 257 (tickSettings bench slowStart (List.replicate 257 (.tick fun _ => 0))) := by
  have first : (tickSettings bench slowStart (List.replicate 257 (.tick fun _ => 0)))[0]? = some true := by
    rw [List.replicate_succ]
    rfl
  refine ⟨rfl, ticksHold _ 257 (by decide +kernel), fun periodic => ?_⟩
  exact absurd ((periodic 0 true first).mp rfl) (by decide)

/-! Which settings the main loop answers. -/

/- The test that finds `comm_handle` set starts a body. -/
def starts (r : Running F) : Action → Bool
  | .tick _ => false
  | .statement _ _ => r.next == .testHandle && r.main.commHandle

/- A run with a clock: the times of the latest setting of `comm_handle` and of the latest start of a body. -/
structure Clocked (F : Type) where
  running : Running F
  time : Nat
  setting : Option Nat
  start : Option Nat

def clockStep (b : Board F) (c : Clocked F) (action : Action) : Clocked F where
  running := mainStep b c.running action
  time := c.time + 1
  setting := if sets c.running action then some c.time else c.setting
  start := if starts c.running action then some c.time else c.start

def Main.clocked (s : Main F) : Clocked F := ⟨s.running, 0, none, none⟩

def clockedRun (b : Board F) (s : Main F) (actions : List Action) : Clocked F := actions.foldl (clockStep b) s.clocked

def TestsUnset (c : Clocked F) : Prop := c.running.next = .testHandle ∧ c.running.main.commHandle = false

def EachAnswered (c : Clocked F) : Prop := ∀ setting ∈ c.setting, ∃ start ∈ c.start, setting < start

/- From the start of a body to the statement that clears `comm_handle`. -/
def InBody (next : Statement) : Prop := next ≠ .countIdle ∧ next ≠ .testHandle ∧ next ≠ .clearIdle

/- No tick sets `comm_handle` there. -/
def Spared (r : Running F) (action : Action) : Prop := InBody r.next → sets r action = false

instance (c : Clocked F) : Decidable (TestsUnset c) := by unfold TestsUnset; infer_instance
instance (next) : Decidable (InBody next) := by unfold InBody; infer_instance
instance (r : Running F) (action) : Decidable (Spared r action) := by unfold Spared; infer_instance

section EachAnswered
variable {b : Board F} {c : Clocked F}

structure Awaiting (c : Clocked F) : Prop where
  past : ∀ setting ∈ c.setting, setting < c.time
  body : InBody c.running.next → EachAnswered c
  unset : c.running.main.commHandle = false → EachAnswered c

theorem Awaiting.tick (awaiting : Awaiting c) (encoders : Nat → UInt16) (spared : Spared c.running (.tick encoders)) :
    Awaiting (clockStep b c (.tick encoders)) := by
  have handle := onTimerTickHandle b c.running.main encoders
  by_cases last : c.running.main.tickCounter - 1 = 0
  · have setting : sets c.running (.tick encoders) = true := beq_iff_eq.mpr last
    rw [if_pos last] at handle
    refine ⟨?_, fun body => ?_, fun unset => ?_⟩
    · simp only [clockStep, setting, if_pos, Option.mem_some_iff]
      rintro time rfl
      exact Nat.lt_succ_self _
    · exact absurd (spared body) (by rw [setting]; decide)
    · exact absurd (handle.symm.trans unset) (by decide)
  · have setting : sets c.running (.tick encoders) = false := beq_eq_false_iff_ne.mpr last
    rw [if_neg last] at handle
    have same : clockStep b c (.tick encoders) = { c with
        running := mainStep b c.running (.tick encoders), time := c.time + 1 } := by
      simp only [clockStep, setting, starts]
      rfl
    rw [same]
    exact ⟨fun time known => Nat.lt_succ_of_lt (awaiting.past time known), awaiting.body,
      fun unset => awaiting.unset (handle.symm.trans unset)⟩

/- Outside of the body the flag is only tested. -/
theorem executeOutside {r : Running F} (ranges : Nat → UInt16) (line : Line) (outside : ¬ InBody r.next)
    (rests : starts r (.statement ranges line) = false) :
    (execute b ranges line r).main.commHandle = r.main.commHandle ∧ ¬ InBody (execute b ranges line r).next := by
  unfold InBody starts at *
  unfold execute
  cases next : r.next with
  | countIdle => exact ⟨rfl, by simp⟩
  | testHandle =>
    rw [next] at rests
    have unset : r.main.commHandle = false := rests
    exact ⟨rfl, by simp [unset]⟩
  | clearIdle => exact ⟨rfl, by simp⟩
  | _ => simp [next] at outside

/- The latest setting is answered when a body starts, and stays so as long as there is no other. -/
theorem Awaiting.statement (awaiting : Awaiting c) (ranges : Nat → UInt16) (line : Line) :
    Awaiting (clockStep b c (.statement ranges line)) := by
  have older : ∀ setting ∈ c.setting, setting < c.time + 1 := fun time known => Nat.lt_succ_of_lt (awaiting.past time known)
  cases begins : starts c.running (.statement ranges line) with
  | true =>
    have started : EachAnswered (clockStep b c (.statement ranges line)) := by
      intro setting known
      simp only [clockStep, begins, if_pos, Option.mem_some_iff, exists_eq_left']
      exact awaiting.past setting known
    exact ⟨older, fun _ => started, fun _ => started⟩
  | false =>
    have same : clockStep b c (.statement ranges line) = { c with
        running := execute b ranges line c.running, time := c.time + 1 } := by
      simp only [clockStep, begins, sets]
      rfl
    rw [same]
    by_cases inside : InBody c.running.next
    · exact ⟨older, fun _ => awaiting.body inside, fun _ => awaiting.body inside⟩
    · obtain ⟨handle, outside⟩ := executeOutside ranges line inside begins
      exact ⟨older, fun body => absurd body outside, fun unset => awaiting.unset (handle.symm.trans unset)⟩

/- When no tick sets `comm_handle` between the start of a body and its end, the test never misses a setting. -/
theorem settingsAnswered (b : Board F) (s : Main F) (actions : List Action)
    (spared : Each (mainStep b) Spared s.running actions) :
    TestsUnset (clockedRun b s actions) → EachAnswered (clockedRun b s actions) := by
  have start : Awaiting s.clocked := ⟨fun _ none => (nomatch none), fun _ _ none => (nomatch none), fun _ _ none => (nomatch none)⟩
  have each : Each (clockStep b) (fun c action => Spared c.running action) s.clocked actions :=
    Each.seen Clocked.running (fun _ _ => rfl) spared
  have kept : Awaiting (clockedRun b s actions) := each.kept (fun c action awaiting spared => by
    cases action with
    | tick encoders => exact awaiting.tick encoders spared
    | statement ranges line => exact awaiting.statement ranges line) start
  exact fun unset => kept.unset unset.2

end EachAnswered

theorem tickAnswered : EachAnswered (clockedRun bench booted (cycle 2 1)) :=
  settingsAnswered bench booted (cycle 2 1) (by decide +kernel) (by decide +kernel)

/- The fourth tick sets `comm_handle` again, while the body that the second one led to is executed, and is dropped. -/
theorem fourthTickDropped : TestsUnset (clockedRun bench booted (cycle 2 2)) ∧
    ¬ EachAnswered (clockedRun bench booted (cycle 2 2)) := by
  have setting : (clockedRun bench booted (cycle 2 2)).setting = some 5 := by decide +kernel
  have start : (clockedRun bench booted (cycle 2 2)).start = some 3 := by decide +kernel
  refine ⟨by decide +kernel, fun answered => ?_⟩
  obtain ⟨time, known, later⟩ := answered 5 setting
  cases start.symm.trans known
  exact absurd later (by decide)

end OrazioLogger.Firmware
