import OrazioLogger.Drive

/-! orazio_param.c. The EEPROM is an array of bytes. -/
namespace OrazioLogger.Firmware
open ByteMemory OrazioPackets
open OrazioClient (load32 store32)

variable {F : Type}

def protocolVersionOffset : Nat := 32
def firmwareVersionOffset : Nat := protocolVersionOffset + 4
def systemParamOffset : Nat := firmwareVersionOffset + 4
def driveParamOffset : Nat := systemParamOffset + sizeofSystemParamPacket.toNat
def sonarParamOffset : Nat := driveParamOffset + sizeofDifferentialDriveParamPacket.toNat
def jointParamOffset : Nat := sonarParamOffset + sizeofSonarParamPacket.toNat

def paramLoadAction : UInt8 := 1
def paramSaveAction : UInt8 := 2

/- `size` bytes from `src` copied to `dest`. -/
def copyBytes (m : Memory) (dest : Nat) (source : Memory) (src size : Nat) : Memory := fun a =>
  if dest ≤ a ∧ a < dest + size then source (src + (a - dest)) else m a

def eepromRead (f : State F) (g : Global) (offset src size : Nat) : State F :=
  f.set g (copyBytes (f.globals g) offset f.eeprom src size)

def eepromWrite (f : State F) (dest : Nat) (g : Global) (offset size : Nat) : State F :=
  { f with eeprom := copyBytes f.eeprom dest (f.globals g) offset size }

/- `JOINT_PARAM_OFFSET+index*sizeof(JointParamPacket)` as a uint16_t. -/
def jointSlot (index : Int) : Nat := ((jointParamOffset + sizeofJointParamPacket.toNat * index) % 65536).toNat

/- `joint_params[index]` is in the table. -/
def JointIndex (index : Int) : Prop := 0 ≤ index ∧ index < numJoints

instance (index : Int) : Decidable (JointIndex index) := by unfold JointIndex; infer_instance

def checkIndex (f : State F) (index : Int) : State F := if JointIndex index then f else f.faulted

def paramSet (b : Board F) (paramType : UInt8) (f : State F) : PacketStatus × State F :=
  if paramType = paramSystem then (.success, (driveInit b f).2)
  else if paramType = paramJointsSingle then jointsInit b f
  else if paramType = paramDrive then (.success, (driveInit b f).2)
  else if paramType = paramSonar ∧ b.sonar then (.success, (sonarInit f).2)
  else (.genericError, f)

/- The result of `Orazio_paramSet` is not looked at. -/
def paramLoad (b : Board F) (paramType : UInt8) (index : Int) (f : State F) : PacketStatus × State F :=
  if paramType = paramSystem then
    (.success, (paramSet b paramType (eepromRead f .systemParams 0 systemParamOffset sizeofSystemParamPacket.toNat)).2)
  else if paramType = paramJointsSingle then
    let f := checkIndex f index
    let f := if 0 ≤ index then
        eepromRead f .jointParams (jointParam index.toNat) (jointSlot index) sizeofJointParamPacket.toNat
      else f
    (.success, (paramSet b paramType f).2)
  else if paramType = paramDrive then
    (.success, (paramSet b paramType
      (eepromRead f .driveParams 0 driveParamOffset sizeofDifferentialDriveParamPacket.toNat)).2)
  else if paramType = paramSonar ∧ b.sonar then
    (.success, (paramSet b paramType (eepromRead f .sonarParams 0 sonarParamOffset sizeofSonarParamPacket.toNat)).2)
  else (.genericError, f)

def paramSave (b : Board F) (paramType : UInt8) (index : Int) (f : State F) : PacketStatus × State F :=
  if paramType = paramSystem then (.success, eepromWrite f systemParamOffset .systemParams 0 sizeofSystemParamPacket.toNat)
  else if paramType = paramJointsSingle then
    (.success, eepromWrite (checkIndex f index) (jointSlot index) .jointParams (jointParam index.toNat)
      sizeofJointParamPacket.toNat)
  else if paramType = paramDrive then
    (.success, eepromWrite f driveParamOffset .driveParams 0 sizeofDifferentialDriveParamPacket.toNat)
  else if paramType = paramSonar ∧ b.sonar then
    (.success, eepromWrite f sonarParamOffset .sonarParams 0 sizeofSonarParamPacket.toNat)
  else (.genericError, f)

/- One of the four classes after the other, the joints one by one. -/
def eachParam (b : Board F) (one : UInt8 → Int → State F → State F) (f : State F) : State F :=
  let f := one paramSystem (-1) f
  let f := (List.range numJoints).foldl (fun f i => one paramJointsSingle i f) f
  let f := one paramDrive (-1) f
  if b.sonar then one paramSonar (-1) f else f

def paramInit (b : Board F) (f : State F) : State F :=
  let cpv := load32 f.eeprom protocolVersionOffset
  let cfv := load32 f.eeprom firmwareVersionOffset
  let f := if cpv ≠ load32 (f.globals .systemParams) 4 then
      let f := eepromWrite f protocolVersionOffset .systemParams 4 4
      let f := eepromWrite f firmwareVersionOffset .systemParams 8 4
      eachParam b (fun paramType index f => (paramSave b paramType index f).2) f
    else f
  let f := eachParam b (fun paramType index f => (paramLoad b paramType index f).2) f
  f.set .systemParams (store32 (store32 (f.globals .systemParams) 4 cpv) 8 cfv)

end OrazioLogger.Firmware
