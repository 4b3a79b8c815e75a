import OrazioLogger.Commands

/-! orazio.c and orazio_watchdog.c, with the initial values of orazio_globals.c. Timer ticks come
between the calls of the main loop. -/
namespace OrazioLogger.Firmware
open ByteMemory OrazioPackets OrazioComm
open OrazioClient (load16 load32 store16 store32 store32Outside)

variable {F : Type}

/-! The initial values. -/

def littleEndian16 (v : UInt16) : List UInt8 := [v.toUInt8, (v >>> 8).toUInt8]
def littleEndian32 (v : UInt32) : List UInt8 := littleEndian16 v.toUInt16 ++ littleEndian16 (v >>> 16).toUInt16
def header (type : PacketType) (size : PacketSize) : List UInt8 := [type, size, 0, 0]

/- kp, ki, kd, max_i, min_pwm, max_pwm, max_speed, slope, and the bridge. -/
def initialJointParam (b : Board F) (i : Nat) : List UInt8 :=
  header jointParamPacketId sizeofJointParamPacket ++ [UInt8.ofNat i] ++
    [255, 32, 0, 255, 0, 255, 100, 10].flatMap littleEndian16 ++ [1, (b.dualPwmPins i).1, (b.dualPwmPins i).2, 255]

def initialBytes (b : Board F) : Global → List UInt8
  | .systemParams => header systemParamPacketId sizeofSystemParamPacket ++ littleEndian32 orazioProtocolVersion ++
      littleEndian32 orazioFirmwareVersion ++ littleEndian16 10 ++ littleEndian32 115200 ++ littleEndian16 2 ++ [0xF] ++
      littleEndian16 0 ++ [UInt8.ofNat numJoints]
  | .systemStatus => header systemStatusPacketId sizeofSystemStatusPacket
  | .driveParams => header differentialDriveParamPacketId sizeofDifferentialDriveParamPacket ++
      ([b.floats.ofInt (-10000), b.floats.ofInt 10000, literal b.floats 405 1000, b.floats.ofInt 1, b.floats.ofInt 3,
        b.floats.ofInt 4, b.floats.ofInt 2, b.floats.ofInt 15].flatMap fun v => littleEndian32 (b.floats.toBits v)) ++
      [0, 1]
  | .driveStatus => header differentialDriveStatusPacketId sizeofDifferentialDriveStatusPacket ++
      ((List.replicate 9 (b.floats.ofInt 0)).flatMap fun v => littleEndian32 (b.floats.toBits v)) ++ [0]
  | .driveControl => header differentialDriveControlPacketId sizeofDifferentialDriveControlPacket ++
      ((List.replicate 2 (b.floats.ofInt 0)).flatMap fun v => littleEndian32 (b.floats.toBits v))
  | .jointParams => (List.range numJoints).flatMap (initialJointParam b)
  | .jointStatus => (List.range numJoints).flatMap fun i =>
      header jointStatusPacketId sizeofJointStatusPacket ++ [UInt8.ofNat i] ++ List.replicate 11 0
  | .jointControl => (List.range numJoints).flatMap fun i =>
      header jointControlPacketId sizeofJointControlPacket ++ [UInt8.ofNat i, 0, 0, jointDisabled]
  | .stringMessage => header messagePacketId sizeofStringMessagePacket
  | .sonarStatus => header sonarStatusPacketId sizeofSonarStatusPacket
  | .sonarParams => header sonarParamPacketId sizeofSonarParamPacket ++ [10, 20, 30, 40, 10, 20, 30, 40]
  | .response => header responsePacketId sizeofResponsePacket
  | .endEpoch => header endEpochPacketId sizeofEndEpochPacket

def powerOn (b : Board F) (eeprom : Memory) : State F :=
  let zero := b.floats.ofInt 0
  { globals := fun g a => (initialBytes b g).getD a 0
    globalSeq := 0
    jointControllers := fun _ => .zeroed
    bridges := fun _ => ⟨none, 0, 0, 0⟩
    driveController := ⟨false, none, none, none, none, zero, zero, zero, zero, zero, zero, zero, zero, zero, zero, zero, 0, 0⟩
    lastDriveControlSeq := 0
    sonarMaxCycle := 0
    sonarCurrentCycle := 0
    sonarReady := false
    sonarPolls := []
    eeprom := eeprom
    driverCalls := []
    sendResults := []
    fault := false }

/-! The watchdog. `watchdog_count` is a signed word, `watchdog_cycles` an unsigned one. -/

def setWatchdogCount (f : State F) (v : UInt16) : State F := setWord f .systemStatus 18 v

def watchdogReset (f : State F) : State F := setWatchdogCount f (watchdogCycles f)

def watchdogExpire (f : State F) : State F := jointsDisable (setByte f .driveStatus 40 0)

def watchdogHandle (f : State F) : State F :=
  if watchdogCycles f = 0 then setWatchdogCount f (watchdogCycles f)
  else
    let f := if watchdogCount f > 0 then setWatchdogCount f (ofInt16 (watchdogCount f - 1)) else f
    if watchdogCount f = 0 then watchdogExpire f else f

/-! The main loop. -/

structure Main (F : Type) where
  machine : Machine F
  tickCounter : UInt8
  commHandle : Bool

def Main.app (s : Main F) : State F := s.machine.outside.app

def Main.update (s : Main F) (change : State F → State F) : Main F := { s with machine := updateApp s.machine change }

/- What the outside supplies for one turn of `while(1)`: the ticks that come in front of each call, as the encoders are
sampled at them, the ranges of the sonars and the traffic of the UART. -/
structure Turn where
  ticks : Nat → List (Nat → UInt16)
  ranges : Nat → UInt16
  line : Line

def onTimerTick (b : Board F) (s : Main F) (encoders : Nat → UInt16) : Main F :=
  let s := s.update (jointsHandle b encoders)
  let s := { s with tickCounter := s.tickCounter - 1 }
  if s.tickCounter = 0 then { s with tickCounter := (commCycles s.app).toUInt8, commHandle := true } else s

def ticks (b : Board F) (turn : Turn) (point : Nat) (s : Main F) : Main F := (turn.ticks point).foldl (onTimerTick b) s

/- The drive's part of a communication cycle. -/
def driveCycle (b : Board F) (turn : Turn) (s : Main F) : Main F :=
  let s := (ticks b turn 1 s).update (driveUpdate b)
  (ticks b turn 2 s).update (driveControl b)

/- From `Orazio_commHandle` to the end of the watchdog's turn. -/
def communicate (b : Board F) (turn : Turn) (previous : UInt16) (s : Main F) : Main F :=
  let s := ticks b turn 5 { s with machine := (commHandle b turn.line s.machine).2 }
  let s := if previous ≠ rxPackets s.app then s.update watchdogReset else s
  (ticks b turn 6 s).update watchdogHandle

/- The communication's part, with `previous_rx_packets`. -/
def commCycle (b : Board F) (turn : Turn) (previous : UInt16) (s : Main F) : Main F :=
  let s := ticks b turn 3 s
  let s := if b.sonar then s.update (sonarHandle turn.ranges) else s
  communicate b turn previous (ticks b turn 4 s)

def setIdleCycles (v : UInt32) (f : State F) : State F := f.set .systemStatus (store32 (f.globals .systemStatus) 23 v)

def countIdle (f : State F) : State F := setIdleCycles (load32 (f.globals .systemStatus) 23 + 1) f

def finishCycle (b : Board F) (turn : Turn) (s : Main F) : Main F :=
  ({ ticks b turn 7 s with commHandle := false }).update (setIdleCycles 0)

def handleCycle (b : Board F) (turn : Turn) (s : Main F) : Main F :=
  finishCycle b turn (commCycle b turn (rxPackets s.app) (driveCycle b turn s))

/- The head of the loop, which is all of a turn that finds `comm_handle` unset. -/
def idleTurn (b : Board F) (s : Main F) (turn : Turn) : Main F := (ticks b turn 0 s).update countIdle

def loopTurn (b : Board F) (s : Main F) (turn : Turn) : Main F :=
  let s := idleTurn b s turn
  if s.commHandle then handleCycle b turn s else s

def loop (b : Board F) (s : Main F) (turns : List Turn) : Main F := turns.foldl (loopTurn b) s

/- `main` up to its loop. The packet handler's memory and ring are what the linker left. -/
def boot (b : Board F) (buffers : PacketBuffers) (base : PacketHandler PacketType) (memory eeprom : Memory) : Main F :=
  let f := (driveInit b (jointsInit b (paramInit b (powerOn b eeprom))).2).2
  let f := if b.sonar then (sonarInit f).2 else f
  let m := commInit b.sonar buffers ⟨base, memory, { f with globalSeq := 0 }⟩
  { machine := updateApp m fun f => commSendString ("Ready".toList.map fun c => UInt8.ofNat c.toNat) (setWatchdogCount f (watchdogCycles f))
    tickCounter := (commCycles f).toUInt8
    commHandle := false }

/-! What a tick, or a turn of the loop without a cycle, can change. -/

def TickWritten (g : Global) (a : Nat) : Prop := g = .jointStatus ∨ g = .systemStatus ∧ 23 ≤ a

structure TickOnly (f later : State F) : Prop where
  same : later = { f with
    globals := later.globals, jointControllers := later.jointControllers, driverCalls := later.driverCalls
    fault := later.fault }
  globals : SameOutside TickWritten f later
  controls : ∀ i, (later.jointControllers i).control = (f.jointControllers i).control
  outputs : ∀ i c, (f.jointControllers i).control = some c → jointMode f c = jointDisabled →
    (f.jointControllers i).output = 0 → (later.jointControllers i).output = 0

section Tick
variable {b : Board F} {f mid later : State F}

theorem TickOnly.refl (f : State F) : TickOnly f f := ⟨rfl, .refl f, fun _ => rfl, fun _ _ _ _ => id⟩

theorem TickOnly.mode (only : TickOnly f later) (c : Nat) : jointMode later c = jointMode f c :=
  only.globals .jointControl _ fun touched => by rcases touched with touched | ⟨touched, -⟩ <;> cases touched

theorem TickOnly.trans (first : TickOnly f mid) (second : TickOnly mid later) : TickOnly f later := by
  refine ⟨?_, first.globals.trans second.globals, fun i => (second.controls i).trans (first.controls i), ?_⟩
  · rw [second.same, first.same]
  · intro i c bound disabled quiet
    exact second.outputs i c ((first.controls i).trans bound) ((first.mode c).trans disabled)
      (first.outputs i c bound disabled quiet)

/- Words of the status of a joint. -/
theorem TickOnly.status (only : TickOnly f mid) (offset : Nat) (v : UInt16) :
    TickOnly f (setWord mid .jointStatus offset v) :=
  only.trans ⟨rfl, (SameOutside.refl mid).setWord v (Or.inl rfl) (Or.inl rfl), fun _ => rfl, fun _ _ _ _ => id⟩

theorem TickOnly.statusByte (only : TickOnly f mid) (offset : Nat) (v : UInt8) :
    TickOnly f (setByte mid .jointStatus offset v) :=
  only.trans ⟨rfl, (SameOutside.refl mid).setByte v (Or.inl rfl), fun _ => rfl, fun _ _ _ _ => id⟩

/- A controller that keeps its pointers; its output changes only if its joint is not disabled. -/
theorem TickOnly.controller (only : TickOnly f mid) {i : Nat} {j : JointController}
    (bound : j.control = (f.jointControllers i).control)
    (output : ∀ c, (f.jointControllers i).control = some c → jointMode f c = jointDisabled → j.output = 0) :
    TickOnly f (setController mid i j) := by
  have others : ∀ k, k ≠ i → (setController mid i j).jointControllers k = mid.jointControllers k := fun k other =>
    Function.update_of_ne other ..
  have here : (setController mid i j).jointControllers i = j := Function.update_self ..
  refine ⟨?_, only.globals, fun k => ?_, fun k c isBound disabled quiet => ?_⟩
  · unfold setController
    rw [only.same]
  · by_cases same : k = i
    · subst same
      rw [here, bound]
    · rw [others k same, only.controls k]
  · by_cases same : k = i
    · subst same
      rw [here]
      exact output c isBound disabled
    · rw [others k same]
      exact only.outputs k c isBound disabled quiet

theorem jointControllerHandleOnly (enc : UInt16) (i : Nat) (f : State F) : TickOnly f (jointControllerHandle enc i f) := by
  unfold jointControllerHandle
  dsimp only
  split
  · rename_i s c p status control params
    have measured := ((((TickOnly.refl f).status (jointStatusAt s + 7) (ofInt16 (signed16 (enc - encoderPosition f s)))).status
      (jointStatusAt s + 5) enc).statusByte (jointStatusAt s + 15) (jointMode f c)).status (jointStatusAt s + 11)
      (ofInt16 (f.jointControllers i).output)
    have pointed : ∀ d, (f.jointControllers i).control = some d → d = c := fun d same =>
      Option.some.inj (same.symm.trans control)
    split
    · exact measured.controller rfl fun _ _ _ => rfl
    split
    · rename_i enabled _
      refine measured.controller rfl fun d bound disabled => absurd ?_ enabled
      rw [← pointed d bound]
      exact disabled
    split
    · rename_i enabled _ _
      refine TickOnly.controller (measured.status _ _) rfl fun d bound disabled => absurd ?_ enabled
      rw [← pointed d bound]
      exact disabled
    · exact measured
  · exact ⟨rfl, .refl f, fun _ => rfl, fun _ _ _ _ => id⟩

theorem digioSetValueTick (pin value : UInt8) (f : State F) : TickOnly f (digioSetValue b pin value f).2 := by
  unfold digioSetValue
  split <;> exact ⟨rfl, .refl f, fun _ => rfl, fun _ _ _ _ => id⟩

theorem pwmSetDutyCycleTick (pin duty : UInt8) (f : State F) : TickOnly f (pwmSetDutyCycle b pin duty f).2 := by
  unfold pwmSetDutyCycle
  split <;> exact ⟨rfl, .refl f, fun _ => rfl, fun _ _ _ _ => id⟩

theorem hBridgeSetSpeedTick (i : Nat) (speed : Int) (f : State F) : TickOnly f (hBridgeSetSpeed b i speed f).2 := by
  unfold hBridgeSetSpeed
  split
  · exact .refl f
  · exact (digioSetValueTick _ _ f).trans (pwmSetDutyCycleTick _ _ _)
  · unfold hBridgeDualPwmSetSpeed
    dsimp only
    split_ifs <;> exact (pwmSetDutyCycleTick _ _ f).trans (pwmSetDutyCycleTick _ _ _)
  · exact pwmSetDutyCycleTick _ _ f

theorem foldTick {step : State F → Nat → State F} (one : ∀ f i, TickOnly f (step f i)) (is : List Nat) (f : State F) :
    TickOnly f (is.foldl step f) := by
  induction is generalizing f with
  | nil => exact .refl f
  | cons i rest ih => exact (one f i).trans (ih _)

theorem jointsHandleOnly (b : Board F) (encoders : Nat → UInt16) (f : State F) : TickOnly f (jointsHandle b encoders f) :=
  (foldTick (fun f i => jointControllerHandleOnly (encoders i) i f) _ f).trans
    (foldTick (fun f i => hBridgeSetSpeedTick i (f.jointControllers i).output f) _ _)

theorem TickOnly.control (only : TickOnly f later) : control later = control f := by
  have apart : ∀ g a, TickWritten g a → ¬ ControlByte g a := by
    rintro g a (rfl | ⟨rfl, -⟩) read
    · exact read
    · exact read
  rw [controlOf only.globals apart, only.same]
  rfl

theorem setIdleCyclesTick (v : UInt32) (f : State F) : TickOnly f (setIdleCycles v f) := by
  refine ⟨rfl, (SameOutside.refl f).set fun a outside => ?_, fun _ => rfl, fun _ _ _ _ => id⟩
  exact store32Outside v fun inside => outside (Or.inr ⟨rfl, inside.1⟩)

end Tick

/- Ticks at one point change nothing but the state of the firmware. -/
structure Ticked (s later : Main F) : Prop where
  machine : later.machine = updateApp s.machine fun _ => later.app
  app : TickOnly s.app later.app

section Ticked
variable {b : Board F} {s mid later : Main F}

theorem Ticked.trans (first : Ticked s mid) (second : Ticked mid later) : Ticked s later := by
  refine ⟨?_, first.app.trans second.app⟩
  rw [second.machine, first.machine]
  rfl

theorem updateTicked {change : State F → State F} (only : TickOnly s.app (change s.app)) : Ticked s (s.update change) :=
  ⟨rfl, only⟩

theorem Ticked.counted (ticked : Ticked s mid) (tickCounter : UInt8) (commHandle : Bool) :
    Ticked s { mid with tickCounter := tickCounter, commHandle := commHandle } := ⟨ticked.machine, ticked.app⟩

theorem onTimerTickOnly (b : Board F) (s : Main F) (encoders : Nat → UInt16) : Ticked s (onTimerTick b s encoders) := by
  have only := updateTicked (jointsHandleOnly b encoders s.app)
  unfold onTimerTick
  generalize s.update (jointsHandle b encoders) = later at only
  dsimp only
  split
  · exact only.counted _ _
  · exact only.counted _ _

theorem ticksOnly (b : Board F) (turn : Turn) (point : Nat) (s : Main F) : Ticked s (ticks b turn point s) := by
  unfold ticks
  induction turn.ticks point generalizing s with
  | nil => exact ⟨rfl, .refl _⟩
  | cons encoders rest ih => exact (onTimerTickOnly b s encoders).trans (ih _)

theorem idleTurnOnly (b : Board F) (s : Main F) (turn : Turn) : Ticked s (idleTurn b s turn) :=
  (ticksOnly b turn 0 s).trans (updateTicked (setIdleCyclesTick _ _))

theorem idleTurnsOnly (b : Board F) (s : Main F) (turns : List Turn) : Ticked s (turns.foldl (idleTurn b) s) := by
  induction turns generalizing s with
  | nil => exact ⟨rfl, .refl _⟩
  | cons turn rest ih => exact (idleTurnOnly b s turn).trans (ih _)

theorem finishCycleOnly (b : Board F) (turn : Turn) (s : Main F) : Ticked s (finishCycle b turn s) :=
  ((ticksOnly b turn 7 s).counted _ false).trans (updateTicked (setIdleCyclesTick 0 _))

end Ticked

/-! A board to run the firmware on: exact arithmetic with the bits of the constants of the source, all pins accepted, no
sonar, an erased EEPROM. -/

def constants : List (Rat × UInt32) :=
  [(0, 0), (-10000, 0xC61C4000), (10000, 0x461C4000), (81/200, 0x3ECF5C29), (1, 0x3F800000), (3, 0x40400000),
    (4, 0x40800000), (2, 0x40000000), (15, 0x41700000)]

def rationals : Floats Rat where
  ofBits v := ((constants.find? fun c => c.2 = v).map Prod.fst).getD 0
  toBits q := ((constants.find? fun c => c.1 = q).map Prod.snd).getD 0
  ofInt n := n
  toInt16 q := q.num.tdiv q.den
  add := (· + ·)
  sub := (· - ·)
  mul := (· * ·)
  div := (· / ·)
  neg := (- ·)
  lt x y := decide (x < y)
  eq x y := decide (x = y)
  sin q := q
  cos _ := 1
  pi := 355/113

def bench : Board Rat := ⟨false, fun _ => true, fun _ => true, fun i => if i = 0 then (2, 3) else (4, 5), rationals⟩

def buffers : PacketBuffers := ⟨0x200, 0x240, 0x280, 0x2C0, 0x300, 0x340, 0x3A0⟩

def booted : Main Rat := boot bench buffers (PacketHandler.blankHandler _) (fun _ => 0) (fun _ => 0xFF)

def packetLine (packets : List (List UInt8)) : Line := ⟨0, packets.flatMap PacketHandler.frame, 0⟩

def quietTurn (line : Line) : Turn := ⟨fun _ => [], fun _ => 0, line⟩

end OrazioLogger.Firmware
