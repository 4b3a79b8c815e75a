import OrazioLogger.DeferredRuns
import OrazioLogger.OrazioPackets

/-! The table of orazio_comm.c: which packets the firmware takes from the host,
with their buffers and handlers. -/
namespace OrazioLogger.OrazioComm
open ByteMemory DeferredPacketHandler OrazioPackets

/- The static records passed to `Orazio_handlePacket`. -/
inductive PacketHandlerArgs where
  | systemParam | driveControl | driveParam | sonarParam | jointControl | jointParam
  deriving DecidableEq, Repr

inductive DeferredAction where
  | handleParamCtl
  | handlePacket (args : PacketHandlerArgs)
  deriving DecidableEq, Repr

/- Where the linker put the packet buffers. -/
structure PacketBuffers where
  paramControl : Addr
  systemParam : Addr
  jointControl : Addr
  jointParam : Addr
  differentialDriveControl : Addr
  differentialDriveParam : Addr
  sonarParam : Addr

def install (type : PacketType) (size : PacketSize) (buffer : Addr) (action : DeferredAction) :
    Install DeferredAction := ⟨type, size, buffer, packetsPerTypeMax, some action⟩

def sonarPackets (b : PacketBuffers) : List (Install DeferredAction) :=
  [install sonarParamPacketId sizeofSonarParamPacket b.sonarParam (.handlePacket .sonarParam)]

/- `sonar` tells whether `_ORAZIO_USE_SONAR_` is defined. -/
def packets (sonar : Bool) (b : PacketBuffers) : List (Install DeferredAction) :=
  [install paramControlPacketId sizeofParamControlPacket b.paramControl .handleParamCtl,
    install systemParamPacketId sizeofSystemParamPacket b.systemParam (.handlePacket .systemParam),
    install jointControlPacketId sizeofJointControlPacket b.jointControl (.handlePacket .jointControl),
    install jointParamPacketId sizeofJointParamPacket b.jointParam (.handlePacket .jointParam),
    install differentialDriveControlPacketId sizeofDifferentialDriveControlPacket b.differentialDriveControl
      (.handlePacket .driveControl),
    install differentialDriveParamPacketId sizeofDifferentialDriveParamPacket b.differentialDriveParam
      (.handlePacket .driveParam)] ++ if sonar then sonarPackets b else []

variable {τ : Type}

def initializePackets (sonar : Bool) (b : PacketBuffers) (m : DeferredPacketHandler DeferredAction τ) :
    DeferredPacketHandler DeferredAction τ := installAll m (packets sonar b)

/- `Orazio_commInit` as far as the packet handler goes. -/
def commInit (sonar : Bool) (b : PacketBuffers) (outside : Surroundings τ) :
    DeferredPacketHandler DeferredAction τ :=
  initializePackets sonar b (initializeHandler outside)

theorem commInitSetUp (sonar : Bool) (b : PacketBuffers) (outside : Surroundings τ) :
    commInit sonar b outside = setUp outside (packets sonar b) := rfl

def PacketBuffers.Apart (sonar : Bool) (b : PacketBuffers) : Prop :=
  (packets sonar b).Pairwise fun i j => ByteMemory.Disjoint i.buffer i.extent j.buffer j.extent
instance (sonar b) : Decidable (PacketBuffers.Apart sonar b) := by unfold PacketBuffers.Apart; infer_instance

theorem packetsInstallable {sonar : Bool} {b : PacketBuffers} (apart : b.Apart sonar) :
    Installable (packets sonar b) := by
  have types : (packets sonar b).map Install.type = [1,3,5,6,8,9] ++ if sonar then [13] else [] := by
    cases sonar <;> rfl
  refine ⟨?_, ?_, ?_, apart⟩
  · rw [types]
    cases sonar <;> decide
  · cases sonar <;> simp [packets, sonarPackets, install, packetsPerTypeMax]
  · cases sonar <;> simp [packets, sonarPackets, install] <;> decide

end OrazioLogger.OrazioComm
