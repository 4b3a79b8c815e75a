import OrazioLogger.OrazioClient
import OrazioLogger.OrazioComm

/-! The state of the firmware: orazio_globals.c, and the static variables of the modules
around it. Each global packet, or table of packets, is a block of bytes of its own that
starts at offset 0. Reading or writing outside of the blocks is recorded in `fault`. -/
namespace OrazioLogger.Firmware
open ByteMemory OrazioPackets
open OrazioClient (load16 store16 store32 storeHeader)

def numJoints : Nat := 2
def sonarsNum : Nat := 8
def orazioFirmwareVersion : UInt32 := 0x20180805

/- Float arithmetic, as far as the drive uses it. -/
structure Floats (F : Type) where
  ofBits : UInt32 → F
  toBits : F → UInt32
  ofInt : Int → F
  toInt16 : F → Int
  add : F → F → F
  sub : F → F → F
  mul : F → F → F
  div : F → F → F
  neg : F → F
  lt : F → F → Bool
  eq : F → F → Bool
  sin : F → F
  cos : F → F
  pi : F

/- What the firmware is compiled for: whether `_ORAZIO_USE_SONAR_` is defined, which pins the digital and the PWM
driver accept, and the default pins of the two bridges. -/
structure Board (F : Type) where
  sonar : Bool
  digioPin : UInt8 → Bool
  pwmPin : UInt8 → Bool
  dualPwmPins : Nat → UInt8 × UInt8
  floats : Floats F

/- The global packets, with the two static ones of orazio_comm.c. -/
inductive Global where
  | systemParams | systemStatus | driveParams | driveStatus | driveControl
  | jointParams | jointStatus | jointControl | stringMessage | sonarStatus | sonarParams
  | response | endEpoch
  deriving DecidableEq, Repr

def Global.extent : Global → Nat
  | .systemParams => sizeofSystemParamPacket.toNat
  | .systemStatus => sizeofSystemStatusPacket.toNat
  | .driveParams => sizeofDifferentialDriveParamPacket.toNat
  | .driveStatus => sizeofDifferentialDriveStatusPacket.toNat
  | .driveControl => sizeofDifferentialDriveControlPacket.toNat
  | .jointParams => numJoints * sizeofJointParamPacket.toNat
  | .jointStatus => numJoints * sizeofJointStatusPacket.toNat
  | .jointControl => numJoints * sizeofJointControlPacket.toNat
  | .stringMessage => sizeofStringMessagePacket.toNat
  | .sonarStatus => sizeofSonarStatusPacket.toNat
  | .sonarParams => sizeofSonarParamPacket.toNat
  | .response => sizeofResponsePacket.toNat
  | .endEpoch => sizeofEndEpochPacket.toNat

/- The pointers are null, or point into the entry of a joint. -/
structure JointController where
  params : Option Nat
  status : Option Nat
  control : Option Nat
  output : Int
  rampReference : Int
  reference : Int
  errorIntegral : Int
  error : Int
  previousError : Int
  deriving DecidableEq, Repr

def JointController.zeroed : JointController := ⟨none, none, none, 0, 0, 0, 0, 0, 0⟩

inductive HBridgeType where
  | pwmDir | dualPwm | halfCyclePwm
  deriving DecidableEq, Repr

/- `params` is a union: pin0 is the PWM or forward pin, pin1 the direction, backward or enable pin, pin2 the brake. -/
structure HBridge where
  ops : Option HBridgeType
  pin0 : UInt8
  pin1 : UInt8
  pin2 : UInt8
  deriving DecidableEq, Repr

/- The calls of the two drivers that change a pin. -/
inductive DriverCall where
  | setDirection (pin : UInt8) (output : Bool)
  | setValue (pin value : UInt8)
  | pwmEnable (pin : UInt8) (enable : Bool)
  | setDutyCycle (pin duty : UInt8)
  deriving DecidableEq, Repr

/- `bound` tells whether params, status and control point to the global packets or are still null. -/
structure DifferentialDriveController (F : Type) where
  bound : Bool
  statusLeft : Option Nat
  statusRight : Option Nat
  controlLeft : Option Nat
  controlRight : Option Nat
  dt : F
  idt : F
  jointsDt : F
  kr : F
  kl : F
  ikr : F
  ikl : F
  baseline : F
  ibaseline : F
  maxDtv : F
  maxDrv : F
  encoderLeftPrevious : Int
  encoderRightPrevious : Int

/- `sonarPolls`, `driverCalls` and `sendResults`, what `Orazio_sendPacket` returned, are history. -/
structure State (F : Type) where
  globals : Global → Memory
  globalSeq : PacketSeq
  jointControllers : Nat → JointController
  bridges : Nat → HBridge
  driveController : DifferentialDriveController F
  lastDriveControlSeq : PacketSeq
  sonarMaxCycle : UInt8
  sonarCurrentCycle : UInt8
  sonarReady : Bool
  sonarPolls : List UInt8
  eeprom : Memory
  driverCalls : List DriverCall
  sendResults : List PacketStatus
  fault : Bool

variable {F : Type}

def State.set (f : State F) (g : Global) (m : Memory) : State F :=
  { f with globals := Function.update f.globals g m }

def State.faulted (f : State F) : State F := { f with fault := true }

/- A signed byte or word. -/
def signed8 (c : UInt8) : Int := if c < 128 then c.toNat else c.toNat - 256

def signed16 (v : UInt16) : Int := if v < 32768 then v.toNat else v.toNat - 65536

/- Conversion to int16_t. -/
def toInt16 (v : Int) : Int := (v + 32768) % 65536 - 32768

def ofInt16 (v : Int) : UInt16 := UInt16.ofNat (v % 65536).toNat

/-! Where the fields are. -/

def timerPeriodMs (f : State F) : Int := signed16 (load16 (f.globals .systemParams) 12)
def commCycles (f : State F) : UInt16 := load16 (f.globals .systemParams) 18
def periodicPacketMask (f : State F) : UInt8 := f.globals .systemParams 20
def watchdogCycles (f : State F) : UInt16 := load16 (f.globals .systemParams) 21
def rxPackets (f : State F) : UInt16 := load16 (f.globals .systemStatus) 6
def watchdogCount (f : State F) : Int := signed16 (load16 (f.globals .systemStatus) 18)
def enabled (f : State F) : UInt8 := f.globals .driveStatus 40
def driveControlSeq (f : State F) : PacketSeq := load16 (f.globals .driveControl) 2
def rightJointIndex (f : State F) : UInt8 := f.globals .driveParams 36
def leftJointIndex (f : State F) : UInt8 := f.globals .driveParams 37

def jointParam (i : Nat) : Nat := sizeofJointParamPacket.toNat * i
def jointStatusAt (i : Nat) : Nat := sizeofJointStatusPacket.toNat * i
def jointControlAt (i : Nat) : Nat := sizeofJointControlPacket.toNat * i

theorem jointParamEntry (i : Nat) : jointParam i = 25 * i := rfl
theorem jointStatusEntry (i : Nat) : jointStatusAt i = 16 * i := rfl
theorem jointControlEntry (i : Nat) : jointControlAt i = 8 * i := rfl

def jointMode (f : State F) (i : Nat) : UInt8 := f.globals .jointControl (jointControlAt i + 7)
def jointSpeed (f : State F) (i : Nat) : Int := signed16 (load16 (f.globals .jointControl) (jointControlAt i + 5))
def encoderPosition (f : State F) (i : Nat) : UInt16 := load16 (f.globals .jointStatus) (jointStatusAt i + 5)

def jointDisabled : UInt8 := 0
def jointPwm : UInt8 := 1
def jointPid : UInt8 := 2

def setWord (f : State F) (g : Global) (offset : Nat) (v : UInt16) : State F := f.set g (store16 (f.globals g) offset v)

def setByte (f : State F) (g : Global) (offset : Nat) (c : UInt8) : State F := f.set g (store (f.globals g) offset c)

section Fields
variable (f : State F) (g other : Global) (m : Memory)

@[simp] theorem setSame : (f.set g m).globals g = m := Function.update_self ..

theorem setOther {other : Global} (different : other ≠ g) : (f.set g m).globals other = f.globals other :=
  Function.update_of_ne different ..

theorem setWordOutside {a offset : Nat} (v : UInt16) (outside : ¬ (other = g ∧ (a = offset ∨ a = offset + 1))) :
    (setWord f g offset v).globals other a = f.globals other a := by
  unfold setWord
  by_cases same : other = g
  · subst same
    have apart : a ≠ offset ∧ a ≠ offset + 1 := not_or.mp fun here => outside ⟨rfl, here⟩
    rw [setSame]
    exact (storeOther _ apart.2).trans (storeOther _ apart.1)
  · rw [setOther f g _ same]

theorem setByteOutside {a offset : Nat} (c : UInt8) (outside : ¬ (other = g ∧ a = offset)) :
    (setByte f g offset c).globals other a = f.globals other a := by
  unfold setByte
  by_cases same : other = g
  · subst same
    rw [setSame]
    exact storeOther _ fun here => outside ⟨rfl, here⟩
  · rw [setOther f g _ same]

@[simp] theorem setByteSame (offset : Nat) (c : UInt8) : (setByte f g offset c).globals g offset = c := by
  rw [setByte, setSame, storeSame]

end Fields

/-! Which bytes of the globals a step may write. -/

def SameOutside (touched : Global → Nat → Prop) (f later : State F) : Prop :=
  ∀ g a, ¬ touched g a → later.globals g a = f.globals g a

section SameOutside
variable {touched : Global → Nat → Prop} {f mid later : State F}

theorem SameOutside.refl (f : State F) : SameOutside touched f f := fun _ _ _ => rfl

theorem SameOutside.trans (first : SameOutside touched f mid) (second : SameOutside touched mid later) :
    SameOutside touched f later := fun g a outside => (second g a outside).trans (first g a outside)

theorem SameOutside.set (same : SameOutside touched f mid) {g : Global} {m : Memory}
    (written : ∀ a, ¬ touched g a → m a = mid.globals g a) : SameOutside touched f (mid.set g m) := by
  intro other a outside
  by_cases here : other = g
  · subst here
    rw [setSame, written a outside, same _ a outside]
  · rw [setOther _ _ _ here, same other a outside]

theorem SameOutside.setWord (same : SameOutside touched f mid) {g : Global} {offset : Nat} (v : UInt16)
    (low : touched g offset) (high : touched g (offset + 1)) : SameOutside touched f (setWord mid g offset v) := by
  intro other a outside
  rw [setWordOutside, same other a outside]
  rintro ⟨rfl, rfl | rfl⟩
  · exact outside low
  · exact outside high

theorem SameOutside.setByte (same : SameOutside touched f mid) {g : Global} {offset : Nat} (c : UInt8)
    (inside : touched g offset) : SameOutside touched f (setByte mid g offset c) := by
  intro other a outside
  rw [setByteOutside, same other a outside]
  rintro ⟨rfl, rfl⟩
  exact outside inside

/- Reading back through a step. -/
theorem SameOutside.word (same : SameOutside touched f later) {g : Global} {offset : Nat} (low : ¬ touched g offset)
    (high : ¬ touched g (offset + 1)) : load16 (later.globals g) offset = load16 (f.globals g) offset := by
  rw [load16, load16, same g _ low, same g _ high]

end SameOutside

end OrazioLogger.Firmware
