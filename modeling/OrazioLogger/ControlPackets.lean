import OrazioLogger.Watchdog

/-! Drive commands against joint commands. A drive command is recognised by `Orazio_driveControl`, one step after the
batch it came in, as long as no packet in between has made its number the last one seen. -/
namespace OrazioLogger.Firmware
open ByteMemory OrazioPackets OrazioComm
open OrazioClient (load16 store16)

variable {F : Type}

def Command.isJointControl : Command → Bool
  | .jointControl _ _ => true
  | _ => false

def Command.isDriveControl : Command → Bool
  | .driveControl _ => true
  | _ => false

/- The packets on which `Orazio_driveInit` runs. -/
def Command.reinitialises : Command → Bool
  | .systemParam _ | .driveParam => true
  | .paramControl action paramType => action = paramLoadAction ∧ (paramType = paramSystem ∨ paramType = paramDrive)
  | _ => false

/- The number of the last drive command, or the one stored before the batch. -/
def latest (stored : PacketSeq) : List Command → PacketSeq
  | [] => stored
  | .driveControl seq :: rest => latest seq rest
  | _ :: rest => latest stored rest

/- The number recognised last: that of the command stored when the drive was last initialised. -/
def recognised (stored last : PacketSeq) : List Command → PacketSeq
  | [] => last
  | .driveControl seq :: rest => recognised seq last rest
  | c :: rest => recognised stored (if c.reinitialises then stored else last) rest

def settingsAfter (settings saved : Settings) : List Command → Settings
  | [] => settings
  | .systemParam own :: rest => settingsAfter own saved rest
  | .paramControl action paramType :: rest =>
    if action = paramLoadAction ∧ paramType = paramSystem then settingsAfter saved saved rest
    else if action = paramSaveAction ∧ paramType = paramSystem then settingsAfter settings settings rest
    else settingsAfter settings saved rest
  | _ :: rest => settingsAfter settings saved rest

/- A drive command is there that `Orazio_driveControl` has yet to recognise. -/
def StillNew (stored last : PacketSeq) (commands : List Command) : Prop :=
  recognised stored last commands ≠ latest stored commands
instance (stored last commands) : Decidable (StillNew stored last commands) := by unfold StillNew; infer_instance

section Effects
variable {sonar : Bool} {c : Control} {commands : List Command}

theorem effectReinitialised (sonar : Bool) (c : Control) (command : Command) (other : command.isDriveControl = false) :
    (command.effect sonar c).driveControlSeq = c.driveControlSeq ∧
      (command.effect sonar c).lastDriveControlSeq =
        if command.reinitialises then c.driveControlSeq else c.lastDriveControlSeq := by
  cases command with
  | driveControl seq => cases other
  | jointControl | sonarParam | jointParam | refused | systemParam | driveParam => exact ⟨rfl, rfl⟩
  | paramControl action paramType =>
    simp only [Command.effect, Command.reinitialises, loaded, Control.reinitialised, decide_eq_true_eq]
    by_cases load : action = paramLoadAction
    · by_cases system : paramType = paramSystem
      · simp [load, system]
      · by_cases drive : paramType = paramDrive
        · have apart : ¬ paramDrive = paramSystem := by decide
          subst drive
          simp [load, apart]
        · simp only [load, system, drive, or_self, and_false, if_true, if_false]
          split <;> exact ⟨rfl, rfl⟩
    · simp only [load, if_false, false_and]
      split <;> exact ⟨rfl, rfl⟩

theorem effectsSeqs (sonar : Bool) (c : Control) (commands : List Command) :
    (effects sonar c commands).driveControlSeq = latest c.driveControlSeq commands ∧
      (effects sonar c commands).lastDriveControlSeq = recognised c.driveControlSeq c.lastDriveControlSeq commands := by
  induction commands generalizing c with
  | nil => exact ⟨rfl, rfl⟩
  | cons command rest ih =>
    have step := ih (command.effect sonar c)
    by_cases drive : command.isDriveControl
    · cases command with
      | driveControl seq => exact step
      | _ => cases drive
    · obtain ⟨stored, last⟩ := effectReinitialised sonar c command (Bool.not_eq_true _ ▸ drive)
      rw [stored, last] at step
      cases command with
      | driveControl seq => exact absurd rfl drive
      | _ => exact step

theorem effectsEnabled (c : Control) (commands : List Command) : (effects sonar c commands).enabled =
    if commands.any Command.isJointControl then 0 else c.enabled := by
  induction commands generalizing c with
  | nil => rfl
  | cons command rest ih =>
    refine (ih (command.effect sonar c)).trans ?_
    rw [List.any_cons]
    cases command with
    | jointControl joint record =>
      rw [Command.isJointControl, Bool.true_or, if_pos rfl]
      split <;> rfl
    | paramControl action paramType =>
      have kept : (Command.effect sonar c (.paramControl action paramType)).enabled = c.enabled := by
        simp only [Command.effect, loaded, Control.reinitialised]
        split_ifs <;> rfl
      rw [kept]
      rfl
    | _ => rfl

theorem effectsSettings (c : Control) (commands : List Command) :
    (effects sonar c commands).settings = settingsAfter c.settings c.saved commands := by
  induction commands generalizing c with
  | nil => rfl
  | cons command rest ih =>
    refine (ih (command.effect sonar c)).trans ?_
    cases command with
    | paramControl action paramType =>
      simp only [Command.effect, loaded, Control.reinitialised, settingsAfter]
      by_cases load : action = paramLoadAction
      · by_cases system : paramType = paramSystem
        · rw [if_pos load, if_pos system, if_pos ⟨load, system⟩]
        · simp only [load, system, and_false, if_true, if_false]
          split_ifs <;> rfl
      · simp only [load, false_and, if_false]
        split_ifs <;> rfl
    | _ => rfl

/- The record of a joint after the last joint command. -/
theorem effectsJoint {joint : Nat} {record : JointCommand} {post : List Command}
    (last : ∀ c ∈ post, c.isJointControl = false) (c : Control) :
    (effects sonar (Command.effect sonar c (.jointControl joint record)) post).joints joint = record := by
  have kept : ∀ (c : Control) (post : List Command), (∀ c ∈ post, c.isJointControl = false) →
      (effects sonar c post).joints = c.joints := by
    intro c post
    induction post generalizing c with
    | nil => exact fun _ => rfl
    | cons command rest ih =>
      intro last
      refine (ih (command.effect sonar c) fun d member => last d (List.mem_cons_of_mem _ member)).trans ?_
      cases command with
      | jointControl => cases last _ List.mem_cons_self
      | paramControl action paramType =>
        simp only [Command.effect, loaded, Control.reinitialised]
        split_ifs <;> rfl
      | _ => rfl
  rw [kept _ _ last]
  exact Function.update_self ..

theorem latestAppend (stored : PacketSeq) (pre post : List Command) :
    latest stored (pre ++ post) = latest (latest stored pre) post := by
  induction pre generalizing stored with
  | nil => rfl
  | cons command rest ih =>
    cases command with
    | _ => exact ih _

end Effects

/-! From the call of `Orazio_commHandle` to the next `Orazio_driveControl`: the rest of the cycle, turns of the loop that
find nothing to handle, and the drive's part of the next cycle. -/

def nextDriveControl (b : Board F) (turn : Turn) (idle : List Turn) (next : Turn) (s : Main F) : Main F :=
  driveCycle b next (idle.foldl (idleTurn b) (finishCycle b turn (communicate b turn (rxPackets s.app) s)))

section DriveControl
variable {b : Board F} {f : State F}

theorem driveUpdateControl (b : Board F) (f : State F) : control (driveUpdate b f) = control f := by
  rw [(driveUpdateOnly b f).control, driveUpdateSeq]
  rfl

theorem setJointModeEnabled (control : Option Nat) (mode : UInt8) :
    enabled (setJointMode f control mode) = enabled f := by
  cases control <;> rfl

theorem setJointSpeedEnabled (control : Option Nat) (speed : Int) :
    enabled (setJointSpeed f control speed) = enabled f := by
  cases control <;> rfl

theorem driveControlEnabled (b : Board F) (f : State F) : enabled (driveControl b f) =
    if (control f).lastDriveControlSeq ≠ (control f).driveControlSeq then 1 else (control f).enabled := by
  have controls : ∀ g, enabled (driveControllerControl b g) = enabled g := by
    intro g
    unfold driveControllerControl
    dsimp only
    rw [setJointModeEnabled, setJointModeEnabled, setJointSpeedEnabled, setJointSpeedEnabled]
  have recognises : enabled (recogniseCommand f) = if f.lastDriveControlSeq ≠ driveControlSeq f then 1 else enabled f := by
    unfold recogniseCommand
    split
    · exact setByteSame f .driveStatus 40 1
    · rfl
  unfold driveControl
  dsimp only
  split
  · exact (controls _).trans recognises
  · exact recognises

theorem driveControlIdle (known : (control f).lastDriveControlSeq = (control f).driveControlSeq)
    (disabled : (control f).enabled = 0) : driveControl b f = f := by
  have old : recogniseCommand f = f := if_neg (not_not.mpr known)
  unfold driveControl
  rw [old]
  exact if_neg (not_not.mpr disabled)

/- What `Orazio_driveControl` finds: the control as the watchdog left it. -/
theorem nextDriveControlFinds (b : Board F) (turn : Turn) (idle : List Turn) (next : Turn) (s : Main F) :
    ∃ f, (nextDriveControl b turn idle next s).app = driveControl b f ∧
      control f = control (communicate b turn (rxPackets s.app) s).app := by
  let watched := communicate b turn (rxPackets s.app) s
  have idles := (finishCycleOnly b turn watched).trans (idleTurnsOnly b _ idle)
  let begun := idle.foldl (idleTurn b) (finishCycle b turn watched)
  have one := ticksOnly b next 1 begun
  have two := ticksOnly b next 2 ((ticks b next 1 begun).update (driveUpdate b))
  refine ⟨(ticks b next 2 ((ticks b next 1 begun).update (driveUpdate b))).app, rfl, ?_⟩
  calc control (ticks b next 2 ((ticks b next 1 begun).update (driveUpdate b))).app
      = control (driveUpdate b (ticks b next 1 begun).app) := two.app.control
    _ = control (ticks b next 1 begun).app := driveUpdateControl b _
    _ = control begun.app := one.app.control
    _ = control watched.app := idles.app.control

end DriveControl

section Batches
variable {b : Board F} {turn next : Turn} {idle : List Turn} {s : Main F} {pre post : List Command}

/- The watchdog settings in force at the end of the cycle. -/
def cyclesAfter (b : Board F) (turn : Turn) (s : Main F) : UInt16 :=
  (settingsAfter (control s.app).settings (control s.app).saved (batch b turn.line s.machine)).watchdogCycles

theorem driveCommandEnables {seq : PacketSeq} (tabled : Tabled b.sonar s.machine)
    (valid : ValidBatch b turn.line s.machine)
    (commands : batch b turn.line s.machine = pre ++ .driveControl seq :: post)
    (noJoint : ∀ c ∈ post, c.isJointControl = false) (watchdogOff : cyclesAfter b turn s = 0) :
    enabled (nextDriveControl b turn idle next s).app = 1 ↔
      StillNew (driveControlSeq s.app) s.app.lastDriveControlSeq (batch b turn.line s.machine) ∨
        enabled s.app = 1 ∧ ∀ c ∈ pre, c.isJointControl = false := by
  obtain ⟨f, after, finds⟩ := nextDriveControlFinds b turn idle next s
  obtain ⟨g, watched, found⟩ := communicateFound tabled valid
  have off : watchdogCycles g = 0 := by
    rw [← controlWatchdogCycles, found.control, effectsSettings]
    exact watchdogOff
  have atLast : control f = effects b.sonar (control s.app) (batch b turn.line s.machine) := by
    rw [finds, watched, watchdogHandleOff off, found.control]
  obtain ⟨stored, last⟩ := effectsSeqs b.sonar (control s.app) (batch b turn.line s.machine)
  have joints : (batch b turn.line s.machine).any Command.isJointControl = pre.any Command.isJointControl := by
    have none : post.any Command.isJointControl = false := List.any_eq_false.mpr fun c member => by simp [noJoint c member]
    rw [commands, List.any_append, List.any_cons, none]
    exact Bool.or_false _
  rw [after, driveControlEnabled, atLast, stored, last, effectsEnabled, joints]
  change (if StillNew (driveControlSeq s.app) s.app.lastDriveControlSeq (batch b turn.line s.machine) then (1 : UInt8)
    else if pre.any Command.isJointControl then 0 else enabled s.app) = 1 ↔ _
  by_cases new : StillNew (driveControlSeq s.app) s.app.lastDriveControlSeq (batch b turn.line s.machine)
  · simp [new]
  · simp only [new, if_false, false_or]
    cases joint : pre.any Command.isJointControl with
    | true =>
      obtain ⟨c, member, isJoint⟩ := List.any_eq_true.mp joint
      rw [if_pos rfl]
      exact ⟨fun no => absurd no (by decide), fun all => by simp [all.2 c member] at isJoint⟩
    | false => simpa using fun _ => List.any_eq_false.mp joint

/- The packets of the two examples: a drive command, the default system parameters, and 5 as the PWM of joint 0. -/
def driveControlPacket (seq : UInt8) : List UInt8 :=
  [differentialDriveControlPacketId, sizeofDifferentialDriveControlPacket, seq, 0] ++ List.replicate 8 0

def systemParamPacket : List UInt8 := initialBytes bench .systemParams

def jointControlPacket : List UInt8 := [jointControlPacketId, sizeofJointControlPacket, 2, 0, 0, 5, 0, jointPwm]

def commandTurn (packets : List (List UInt8)) : Turn := quietTurn (packetLine packets)

theorem firstCommandEnables : enabled (nextDriveControl bench (commandTurn [driveControlPacket 1]) []
      (commandTurn []) booted).app = 1 ↔
    StillNew (driveControlSeq booted.app) booted.app.lastDriveControlSeq
        (batch bench (commandTurn [driveControlPacket 1]).line booted.machine) ∨
      enabled booted.app = 1 ∧ ∀ c ∈ ([] : List Command), c.isJointControl = false :=
  driveCommandEnables (bootTabled bench buffers _ _ _) (by decide +kernel)
    (show batch bench (commandTurn [driveControlPacket 1]).line booted.machine = [] ++ .driveControl 1 :: [] by
      decide +kernel)
    (fun _ none => nomatch none) (by decide +kernel)

/- The system parameters that follow a drive command make it an old one. -/
theorem commandTakenForOld : let turn := commandTurn [driveControlPacket 1, systemParamPacket]
    ValidBatch bench turn.line booted.machine ∧
      batch bench turn.line booted.machine = [.driveControl 1, .systemParam ⟨0xF, 0⟩] ∧
      cyclesAfter bench turn booted = 0 ∧ enabled (nextDriveControl bench turn [] (commandTurn []) booted).app = 0 := by
  decide +kernel

theorem batchJoint {joint : Nat} {record : JointCommand} {line : Line} {m : Machine F}
    (member : .jointControl joint record ∈ batch b line m) : joint < numJoints := by
  obtain ⟨p, -, command⟩ := List.mem_filterMap.mp member
  obtain ⟨action, -, same⟩ := Option.map_eq_some_iff.mp command
  cases action with
  | handleParamCtl => cases same
  | handlePacket args =>
    change (if refused args _ p then Command.refused else commandTaken _ p args) = _ at same
    cases taken : refused args (beginEpoch line m).outside.memory p with
    | true =>
      rw [taken, if_pos rfl] at same
      cases same
    | false =>
      rw [taken, if_neg Bool.false_ne_true] at same
      cases args with
      | jointControl =>
        cases same
        have inside : signed8 ((beginEpoch line m).outside.memory (p + 4)) < numJoints := by
          simpa [refused, maxIndex, index] using taken
        rw [numJoints] at inside ⊢
        omega
      | _ => cases same

/- What the last joint command finds at the next `Orazio_driveControl`. -/
def Wins (f : State F) (joint : Nat) (record : JointCommand) : Prop :=
  enabled f = 0 ∧ jointCommandAt (f.globals .jointControl) (jointControlAt joint) = record
instance (f : State F) (joint record) : Decidable (Wins f joint record) := by unfold Wins; infer_instance

theorem jointCommandWins {joint : Nat} {record : JointCommand} (tabled : Tabled b.sonar s.machine)
    (valid : ValidBatch b turn.line s.machine)
    (commands : batch b turn.line s.machine = pre ++ .jointControl joint record :: post)
    (last : ∀ c ∈ post, c.isJointControl = false ∧ c.isDriveControl = false)
    (bound : Expires (cyclesAfter b turn s)
      (countFound (cyclesAfter b turn s) (accepted turn.line s.machine) (watchdogCount s.app)) → Bound s.app) :
    Wins (nextDriveControl b turn idle next s).app joint record ↔
      ¬ StillNew (driveControlSeq s.app) s.app.lastDriveControlSeq (batch b turn.line s.machine) ∧
        (Expires (cyclesAfter b turn s)
            (countFound (cyclesAfter b turn s) (accepted turn.line s.machine) (watchdogCount s.app)) →
          record.mode = jointDisabled) := by
  obtain ⟨f, after, finds⟩ := nextDriveControlFinds b turn idle next s
  obtain ⟨g, watched, found⟩ := communicateFound tabled valid
  have cycles : watchdogCycles g = cyclesAfter b turn s := by
    rw [← controlWatchdogCycles, found.control, effectsSettings]
    rfl
  have effect : (control g).joints joint = record := by
    rw [found.control, commands, effectsAppend]
    exact effectsJoint (fun c member => (last c member).1) _
  obtain ⟨stored, known⟩ := effectsSeqs b.sonar (control s.app) (batch b turn.line s.machine)
  have disabled : (control g).enabled = 0 := by
    have joint : (batch b turn.line s.machine).any Command.isJointControl = true := by
      rw [commands, List.any_append, List.any_cons]
      simp [Command.isJointControl]
    rw [found.control, effectsEnabled, joint]
    rfl
  have member : Command.jointControl joint record ∈ batch b turn.line s.machine := by
    rw [commands]
    exact List.mem_append_right _ List.mem_cons_self
  have inside : joint < numJoints := batchJoint member
  have left : control f = if Expires (watchdogCycles g) (watchdogCount g) then (control g).expired else control g :=
    finds.trans ((congrArg control watched).trans (watchdogHandleControl fun expires => found.bound (bound (by
      rwa [← cycles, ← found.count]))))
  have seqs : (control f).driveControlSeq = latest (driveControlSeq s.app) (batch b turn.line s.machine) ∧
      (control f).lastDriveControlSeq =
        recognised (driveControlSeq s.app) s.app.lastDriveControlSeq (batch b turn.line s.machine) := by
    rw [left]
    split
    · exact ⟨(congrArg Control.driveControlSeq found.control).trans stored,
        (congrArg Control.lastDriveControlSeq found.control).trans known⟩
    · exact ⟨(congrArg Control.driveControlSeq found.control).trans stored,
        (congrArg Control.lastDriveControlSeq found.control).trans known⟩
  have off : (control f).enabled = 0 := by
    rw [left]
    split
    · rfl
    · exact disabled
  rw [after, ← cycles, ← found.count]
  by_cases new : StillNew (driveControlSeq s.app) s.app.lastDriveControlSeq (batch b turn.line s.machine)
  · have enables : enabled (driveControl b f) = 1 := by
      rw [driveControlEnabled, seqs.1, seqs.2]
      exact if_pos new
    refine ⟨fun wins => absurd (enables.symm.trans wins.1) (by decide), fun no => absurd new no.1⟩
  · have known : (control f).lastDriveControlSeq = (control f).driveControlSeq := by
      rw [seqs.1, seqs.2]
      exact not_not.mp new
    rw [driveControlIdle known off]
    have wins : Wins f joint record ↔ (control f).joints joint = record := ⟨fun wins => wins.2, fun same => ⟨off, same⟩⟩
    rw [wins, left]
    by_cases expires : Expires (watchdogCycles g) (watchdogCount g)
    · rw [if_pos expires]
      have mode : (control g).expired.joints joint = { record with mode := jointDisabled } := by
        simp only [Control.expired, if_pos inside, effect]
      rw [mode]
      constructor
      · exact fun same => ⟨new, fun _ => (congrArg JointCommand.mode same).symm⟩
      · rintro ⟨-, stops⟩
        rw [← stops expires]
    · rw [if_neg expires]
      exact ⟨fun _ => ⟨new, fun yes => absurd yes expires⟩, fun _ => effect⟩

/- A joint command alone, and behind a drive command that enables the drive once more. -/
theorem jointCommandAlone : Wins (nextDriveControl bench (commandTurn [jointControlPacket]) [] (commandTurn [])
      booted).app 0 ⟨jointPwm, 5⟩ ↔
    ¬ StillNew (driveControlSeq booted.app) booted.app.lastDriveControlSeq
        (batch bench (commandTurn [jointControlPacket]).line booted.machine) ∧
      (Expires (cyclesAfter bench (commandTurn [jointControlPacket]) booted)
          (countFound (cyclesAfter bench (commandTurn [jointControlPacket]) booted)
            (accepted (commandTurn [jointControlPacket]).line booted.machine) (watchdogCount booted.app)) →
        jointPwm = jointDisabled) :=
  jointCommandWins (bootTabled bench buffers _ _ _) (by decide +kernel)
    (show batch bench (commandTurn [jointControlPacket]).line booted.machine = [] ++ .jointControl 0 ⟨jointPwm, 5⟩ :: [] by
      decide +kernel)
    (fun _ none => nomatch none) (fun _ => by decide +kernel)

theorem driveCommandPrevails : let turn := commandTurn [driveControlPacket 1, jointControlPacket]
    ValidBatch bench turn.line booted.machine ∧
      batch bench turn.line booted.machine = [.driveControl 1, .jointControl 0 ⟨jointPwm, 5⟩] ∧
      ¬ Wins (nextDriveControl bench turn [] (commandTurn []) booted).app 0 ⟨jointPwm, 5⟩ := by
  decide +kernel

end Batches

end OrazioLogger.Firmware
