import OrazioLogger.MainSteps

/-! The watchdog in the cycles that receive something. -/
namespace OrazioLogger.Firmware
open ByteMemory Countdown
open OrazioClient (load16)

variable {F : Type}

/- What `Orazio_watchdogHandle` would switch off is as before. -/
def LeavesOn (f later : State F) : Prop :=
  enabled later = enabled f ∧ ∀ i < numJoints, (later.jointControllers i).output = (f.jointControllers i).output ∧
    ∀ c ∈ (f.jointControllers i).control, jointMode later c = jointMode f c

def AllOff (f : State F) : Prop :=
  enabled f = 0 ∧ ∀ i < numJoints, (f.jointControllers i).output = 0 ∧
    ∀ c ∈ (f.jointControllers i).control, jointMode f c = jointDisabled

/-! One call. -/

section Handle
variable {f later : State F}

theorem disableJointMode (f : State F) (i c : Nat) : jointMode (disableJoint f i) c =
    if (f.jointControllers i).control = some c then jointDisabled else jointMode f c := by
  unfold disableJoint
  cases bound : (f.jointControllers i).control with
  | none => rfl
  | some d =>
    change (setByte f .jointControl (jointControlAt d + 7) jointDisabled).globals .jointControl (jointControlAt c + 7) = _
    by_cases same : d = c
    · rw [if_pos (congrArg some same), same, setByteSame]
    · rw [if_neg fun here => same (Option.some.inj here), setByteOutside _ _ _ _ fun here => same ?_]
      · rfl
      · have entries := And.intro (jointControlEntry c) (jointControlEntry d)
        have place : jointControlAt c + 7 = jointControlAt d + 7 := here.2
        omega

theorem disableJointController (f : State F) (i : Nat) : (disableJoint f i).jointControllers =
    Function.update f.jointControllers i { f.jointControllers i with output := 0 } := by
  unfold disableJoint
  cases (f.jointControllers i).control <;> rfl

theorem disableJointEnabled (f : State F) (i : Nat) : enabled (disableJoint f i) = enabled f := by
  unfold disableJoint
  cases (f.jointControllers i).control <;> rfl

/- Whatever the controllers point to is switched off. -/
theorem watchdogExpireOff (f : State F) : enabled (watchdogExpire f) = 0 ∧
    ∀ i < numJoints, ((watchdogExpire f).jointControllers i).output = 0 ∧
      ∀ c ∈ (f.jointControllers i).control, jointMode (watchdogExpire f) c = jointDisabled := by
  have both : watchdogExpire f = disableJoint (disableJoint (setByte f .driveStatus 40 0) 0) 1 := rfl
  rw [both]
  refine ⟨?_, fun i inside => ⟨?_, fun c pointed => ?_⟩⟩
  · rw [disableJointEnabled, disableJointEnabled]
    exact setByteSame ..
  · rw [disableJointController, disableJointController]
    obtain rfl | rfl : i = 0 ∨ i = 1 := by
      rw [numJoints] at inside
      omega
    · rfl
    · rfl
  · rw [disableJointMode]
    split
    · rfl
    · rename_i other
      rw [disableJointMode]
      obtain rfl | rfl : i = 0 ∨ i = 1 := by
        rw [numJoints] at inside
        omega
      · exact if_pos pointed
      · refine absurd ?_ other
        rw [disableJointController, Function.update_of_ne (by decide)]
        exact pointed

theorem leavesOnReset (v : UInt16) : LeavesOn f (setWatchdogCount f v) := ⟨rfl, fun _ _ => ⟨rfl, fun _ _ => rfl⟩⟩

theorem leavesOnExpired (f : State F) (v : UInt16) : LeavesOn f (watchdogExpire (setWatchdogCount f v)) ↔ AllOff f := by
  obtain ⟨flag, joints⟩ := watchdogExpireOff (setWatchdogCount f v)
  constructor
  · rintro ⟨same, kept⟩
    refine ⟨same.symm.trans flag, fun i inside => ⟨?_, fun c pointed => ?_⟩⟩
    · exact (kept i inside).1.symm.trans (joints i inside).1
    · exact ((kept i inside).2 c pointed).symm.trans ((joints i inside).2 c pointed)
  · rintro ⟨off, stopped⟩
    refine ⟨flag.trans off.symm, fun i inside => ⟨?_, fun c pointed => ?_⟩⟩
    · exact (joints i inside).1.trans (stopped i inside).1.symm
    · exact ((joints i inside).2 c pointed).trans ((stopped i inside).2 c pointed).symm

/- Right after a reset, only a count of one runs out. -/
theorem watchdogHandleReset (reset : watchdogCount f = signed16 (watchdogCycles f)) (low : 1 ≤ watchdogCycles f)
    (high : watchdogCycles f ≤ 32767) : LeavesOn f (watchdogHandle f) ↔ 2 ≤ watchdogCycles f ∨ AllOff f := by
  have atLeast : 1 ≤ (watchdogCycles f).toNat := UInt16.le_iff_toNat_le.mp low
  have atMost : (watchdogCycles f).toNat ≤ 32767 := UInt16.le_iff_toNat_le.mp high
  have two : 2 ≤ watchdogCycles f ↔ 2 ≤ (watchdogCycles f).toNat := UInt16.le_iff_toNat_le
  rw [signed16ToNat, if_pos (by omega)] at reset
  have positive : watchdogCount f > 0 := by omega
  have down : countDown f = setWatchdogCount f (ofInt16 (watchdogCount f - 1)) := if_pos positive
  have count := countDownCount f
  rw [if_pos positive] at count
  rw [watchdogHandleCounts, if_neg (fun off => by rw [off] at atLeast; exact absurd atLeast (by decide)), two]
  by_cases one : watchdogCount (countDown f) = 0
  · rw [if_pos one, down, leavesOnExpired]
    exact (or_iff_right (by omega)).symm
  · rw [if_neg one, down]
    exact iff_of_true (leavesOnReset _) (Or.inl (by omega))

end Handle

/-! Runs of the main loop. -/

/- `Orazio_watchdogHandle` is called in a cycle that changed `rx_packets`, with a watchdog that is on. -/
def LiveCycle (r : Running F) : Action → Prop
  | .tick _ => False
  | .statement _ _ => r.next = .watchdogHandle ∧ r.previous ≠ rxPackets r.main.app ∧ 1 ≤ watchdogCycles r.main.app ∧
      watchdogCycles r.main.app ≤ 32767

def LinkKept (b : Board F) (r : Running F) (action : Action) : Prop :=
  LiveCycle r action → LeavesOn r.main.app (mainStep b r action).main.app

def Fresh (r : Running F) : Prop :=
  r.next = .watchdogHandle → r.previous ≠ rxPackets r.main.app → watchdogCount r.main.app = signed16 (watchdogCycles r.main.app)

section Runs
variable {b : Board F} {r : Running F}

/- The count is set by the statement in front, and ticks leave it. -/
theorem freshStep (fresh : Fresh r) (action : Action) : Fresh (mainStep b r action) := by
  cases action with
  | tick encoders =>
    have carried := (onTimerTickOnly b r.main encoders).app.carries
    intro next changed
    change watchdogCount (onTimerTick b r.main encoders).app = signed16 (watchdogCycles (onTimerTick b r.main encoders).app)
    rw [carried.count, carried.cycles]
    refine fresh next fun same => changed ?_
    exact same.trans carried.rxPackets.symm
  | statement ranges line =>
    rw [mainStep, execute]
    cases next : r.next with
    | watchdogReset =>
      intro _ changed
      by_cases same : r.previous = rxPackets r.main.app
      · exact absurd (by rw [if_neg (not_not.mpr same)]; exact same) changed
      · change watchdogCount (if r.previous ≠ rxPackets r.main.app then r.main.update watchdogReset else r.main).app =
          signed16 (watchdogCycles (if r.previous ≠ rxPackets r.main.app then r.main.update watchdogReset else r.main).app)
        rw [if_pos same]
        exact watchdogCountSet r.main.app (watchdogCycles r.main.app)
    | testHandle =>
      intro here
      change (if r.main.commHandle then Statement.rememberRx else .countIdle) = .watchdogHandle at here
      split at here <;> cases here
    | _ =>
      intro here
      cases here

theorem linkKeptStep (fresh : Fresh r) (action : Action) : LinkKept b r action ↔
    (LiveCycle r action → 2 ≤ watchdogCycles r.main.app ∨ AllOff r.main.app) := by
  refine forall_congr' fun live => ?_
  cases action with
  | tick => exact live.elim
  | statement ranges line =>
    obtain ⟨next, changed, low, high⟩ := live
    rw [← watchdogHandleReset (fresh next changed) low high, mainStep, execute, next]
    rfl

/- The watchdog leaves a live link alone but for a count of one. -/
theorem watchdogLinkKept (b : Board F) (s : Main F) (actions : List Action) :
    Each (mainStep b) (LinkKept b) s.running actions ↔
      Each (mainStep b) (fun r action => LiveCycle r action → 2 ≤ watchdogCycles r.main.app ∨ AllOff r.main.app) s.running
        actions :=
  eachCongr Fresh (fun _ action fresh => freshStep fresh action) (fun _ action fresh => linkKeptStep fresh action)
    fun next => nomatch next

end Runs

/- A joint command received together with 1 for `watchdog_cycles` is withdrawn before the cycle ends. -/
def lively : Action := .statement (fun _ => 0) (packetLine [watchdogPacket 1, jointControlPacket])

def livelyActions : List Action := List.replicate 2 (.tick fun _ => 0) ++ List.replicate 8 lively

theorem livelyStops :
    let r := runActions bench booted.running livelyActions
    watchdogCycles r.main.app = 1 ∧ LiveCycle r lively ∧ jointMode r.main.app 0 = jointPwm ∧
      jointMode (mainStep bench r lively).main.app 0 = jointDisabled ∧
      ¬ Each (mainStep bench) (LinkKept bench) booted.running (livelyActions ++ [lively]) := by
  intro r
  have live : LiveCycle r lively := ⟨by decide +kernel, by decide +kernel, by decide +kernel, by decide +kernel⟩
  have before : jointMode r.main.app 0 = jointPwm := by decide +kernel
  have behind : jointMode (mainStep bench r lively).main.app 0 = jointDisabled := by decide +kernel
  refine ⟨by decide +kernel, live, before, behind, fun kept => ?_⟩
  have last := ((eachAppend booted.running livelyActions [lively]).mp kept).2.1 live
  have mode := (last.2 0 (by decide)).2 0 (by decide +kernel)
  exact absurd (behind.symm.trans (mode.trans before)) (by decide)

end OrazioLogger.Firmware
