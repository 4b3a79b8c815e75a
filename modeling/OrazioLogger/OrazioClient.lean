import OrazioLogger.PacketHandler
import OrazioLogger.OrazioPackets

/-! orazio_client.c. Packets live in memory: those of the client at fixed places,
those of its callers anywhere else; a copy past an array changes memory only, not
the other fields of the client. A call may not return: it waits for a mutex or for
the serial line, or ends the program. -/
namespace OrazioLogger
open ByteMemory OrazioPackets

/- `n = read(fd, &c, 1)` is 1, 0 or -1; unless it is 1, `c` is not initialised. -/
structure ReadOutcome where
  n : Int
  c : UInt8
  deriving DecidableEq, Repr

/- The serial line: the outcomes still to come of `read` and of `write`, and the
bytes handed to `write`. It blocks when the outcomes run out. -/
structure Serial where
  reads : List ReadOutcome
  writes : List Int
  written : List UInt8

/- Why a call does not return: it waits for a mutex that nobody will release, or for
a serial line that has nothing more; it reaches `exit`; an `assert` fails. -/
inductive Halt where
  | locked | starved | exited | aborted
  deriving DecidableEq, Repr

/- The operations installed by the client: `indexed` tells which of the two
`on_receive_fn` it is, `dest` is its argument. -/
structure ClientOp where
  type : PacketType
  size : PacketSize
  indexed : Bool
  dest : Addr
  deriving DecidableEq, Repr

/- The packets of the record are in `memory`, from its start on. The fields the source has behind
them are apart from it here: what is copied beyond the packets does not reach them. -/
structure OrazioClient where
  packetHandler : PacketHandler ClientOp
  globalSeq : UInt16
  memory : Memory
  fd : Serial
  packetSizes : PacketType → PacketSize
  writeMutex : Bool
  readMutex : Bool
  numJoints : Int
  rxBytes : Int
  txBytes : Int

namespace OrazioClient

def numJointsMax : Nat := 4

/- The packet fields of the struct, in its order. -/
def response : Addr := 0
def message : Addr := response + sizeofResponsePacket.toNat
def endEpoch : Addr := message + sizeofStringMessagePacket.toNat
def systemParam : Addr := endEpoch + sizeofEndEpochPacket.toNat
def systemStatus : Addr := systemParam + sizeofSystemParamPacket.toNat
def jointParam : Addr := systemStatus + sizeofSystemStatusPacket.toNat
def jointStatus : Addr := jointParam + numJointsMax * sizeofJointParamPacket.toNat
def driveParam : Addr := jointStatus + numJointsMax * sizeofJointStatusPacket.toNat
def driveStatus : Addr := driveParam + sizeofDifferentialDriveParamPacket.toNat
def sonarStatus : Addr := driveStatus + sizeofDifferentialDriveStatusPacket.toNat
def sonarParam : Addr := sonarStatus + sizeofSonarStatusPacket.toNat
def packetBuffer : Addr := sonarParam + sizeofSonarParamPacket.toNat
def driveControlPacket : Addr := packetBuffer + packetSizeMax.toNat

def load16 (m : Memory) (a : Addr) : UInt16 := (m a).toUInt16 ||| ((m (a + 1)).toUInt16 <<< 8)

def store16 (m : Memory) (a : Addr) (v : UInt16) : Memory :=
  store (store m a v.toUInt8) (a + 1) (v >>> 8).toUInt8

theorem bytesOfWord (v : UInt16) : v.toUInt8.toUInt16 ||| ((v >>> 8).toUInt8.toUInt16 <<< 8) = v := by
  have bound : v.toNat < 2 ^ 16 := v.toNat_lt
  have high : (v.toNat >>> 8 % 2 ^ 8) <<< 8 % 2 ^ 16 = (v.toNat / 2 ^ 8) <<< 8 := by
    rw [Nat.shiftRight_eq_div_pow, Nat.mod_eq_of_lt (a := v.toNat / 2 ^ 8) (by omega), Nat.shiftLeft_eq]
    exact Nat.mod_eq_of_lt (by omega)
  apply UInt16.toNat_inj.mp
  calc (v.toUInt8.toUInt16 ||| ((v >>> 8).toUInt8.toUInt16 <<< 8)).toNat
      = v.toNat % 2 ^ 8 ||| (v.toNat >>> 8 % 2 ^ 8) <<< 8 % 2 ^ 16 := by simp
    _ = (v.toNat / 2 ^ 8) <<< 8 + v.toNat % 2 ^ 8 := by
      rw [high, Nat.or_comm, Nat.shiftLeft_add_eq_or_of_lt (Nat.mod_lt _ (by decide))]
    _ = v.toNat := by
      rw [Nat.shiftLeft_eq]
      omega

theorem load16Store16 (m : Memory) (a : Addr) (v : UInt16) : load16 (store16 m a v) a = v := by
  have first : store16 m a v a = v.toUInt8 :=
    (storeOther _ (Nat.ne_of_lt (Nat.lt_succ_self a))).trans (storeSame _ _ _)
  have second : store16 m a v (a + 1) = (v >>> 8).toUInt8 := storeSame _ _ _
  rw [load16, first, second, bytesOfWord]

def load32 (m : Memory) (a : Addr) : UInt32 :=
  (load16 m a).toUInt32 ||| ((load16 m (a + 2)).toUInt32 <<< 16)

def store32 (m : Memory) (a : Addr) (v : UInt32) : Memory :=
  store16 (store16 m a v.toUInt16) (a + 2) (v >>> 16).toUInt16

theorem store32Outside {m : Memory} {a x : Addr} (v : UInt32) (outside : ¬ Inside a 4 x) : store32 m a v x = m x := by
  have apart : ∀ i : Nat, i < 4 → x ≠ a + i := by
    rintro i small rfl
    exact outside ⟨Nat.le_add_right _ _, Nat.add_lt_add_left small a⟩
  have word : ∀ (m : Memory) i w, i + 1 < 4 → store16 m (a + i) w x = m x := fun m i w small =>
    (storeOther _ (apart (i + 1) small)).trans (storeOther _ (apart i (Nat.lt_of_succ_lt small)))
  exact (word _ 2 _ (by decide)).trans (word _ 0 _ (by decide))

/- The header of a packet: type, size, seq. -/
def storeHeader (m : Memory) (p : Addr) (type : PacketType) (size : PacketSize) (seq : PacketSeq) : Memory :=
  store16 (store (store m p type) (p + 1) size) (p + 2) seq

def memcpy (m : Memory) (dest src : Addr) (n : Nat) : Memory :=
  fun a => if dest ≤ a ∧ a < dest + n then m (src + (a - dest)) else m a

section Operations

def initializeBuffer (_ : PacketType) (_ : PacketSize) (w : World Unit) : Option Addr × World Unit :=
  (some packetBuffer, w)

def copyToBuffer (dest p : Addr) (w : World Unit) : PacketStatus × World Unit :=
  (.success, { w with memory := memcpy w.memory dest p (w.memory (p + 1)).toNat })

def copyToIndexedBuffer (dest p : Addr) (w : World Unit) : PacketStatus × World Unit :=
  let size := (w.memory (p + 1)).toNat
  let index := (w.memory (p + 4)).toNat
  (.success, { w with memory := memcpy w.memory (dest + size * index) p size })

def operation (_ : World Unit) (op : ClientOp) : PacketOperations Unit :=
  ⟨op.type, op.size, initializeBuffer, some (if op.indexed then copyToIndexedBuffer op.dest else copyToBuffer op.dest)⟩

def installedOps : List ClientOp :=
  [⟨responsePacketId, sizeofResponsePacket, false, response⟩,
    ⟨messagePacketId, sizeofStringMessagePacket, false, message⟩,
    ⟨systemParamPacketId, sizeofSystemParamPacket, false, systemParam⟩,
    ⟨systemStatusPacketId, sizeofSystemStatusPacket, false, systemStatus⟩,
    ⟨jointStatusPacketId, sizeofJointStatusPacket, true, jointStatus⟩,
    ⟨jointParamPacketId, sizeofJointParamPacket, true, jointParam⟩,
    ⟨differentialDriveParamPacketId, sizeofDifferentialDriveParamPacket, false, driveParam⟩,
    ⟨differentialDriveStatusPacketId, sizeofDifferentialDriveStatusPacket, false, driveStatus⟩,
    ⟨endEpochPacketId, sizeofEndEpochPacket, false, endEpoch⟩,
    ⟨sonarStatusPacketId, sizeofSonarStatusPacket, false, sonarStatus⟩,
    ⟨sonarParamPacketId, sizeofSonarParamPacket, false, sonarParam⟩]

def sendSizes (type : PacketType) : PacketSize :=
  if type = paramControlPacketId then sizeofParamControlPacket
  else if type = systemParamPacketId then sizeofSystemParamPacket
  else if type = jointParamPacketId then sizeofJointParamPacket
  else if type = jointControlPacketId then sizeofJointControlPacket
  else if type = differentialDriveParamPacketId then sizeofDifferentialDriveParamPacket
  else if type = differentialDriveControlPacketId then sizeofDifferentialDriveControlPacket
  else if type = sonarParamPacketId then sizeofSonarParamPacket
  else 0

end Operations

/- `OrazioClient_init` once the serial line is open; `blank` and `memory` are what
`malloc` returns. The types installed are valid and distinct, so none is refused. -/
def init (blank : PacketHandler ClientOp) (memory : Memory) (fd : Serial) : OrazioClient :=
  let install (h : PacketHandler ClientOp) (op : ClientOp) :=
    (PacketHandler.installPacket (operation ⟨memory, ()⟩) h op).2
  let memory := storeHeader memory driveControlPacket differentialDriveControlPacketId
    sizeofDifferentialDriveControlPacket 0
  let memory := store32 (store32 memory (driveControlPacket + 4) 0) (driveControlPacket + 8) 0
  let memory := storeHeader memory endEpoch endEpochPacketId sizeofEndEpochPacket 0
  let memory := storeHeader memory response responsePacketId sizeofResponsePacket 0
  let memory := store (store16 memory (response + 5) 0) (response + 4) packetTypeMax.toUInt8
  { packetHandler := installedOps.foldl install (PacketHandler.initializeHandler blank)
    globalSeq := 0
    memory := memory
    fd := fd
    packetSizes := sendSizes
    writeMutex := false
    readMutex := false
    numJoints := 0
    rxBytes := 0
    txBytes := 0 }

example : (installedOps.map ClientOp.type).Nodup ∧ ∀ op ∈ installedOps, op.type.toNat < packetTypeMax := by decide

/-! The mutexes are not recursive: locking one that is held never returns. -/

def lockWrite (cl : OrazioClient) : Except Halt OrazioClient :=
  if cl.writeMutex then .error .locked else .ok { cl with writeMutex := true }

def unlockWrite (cl : OrazioClient) : OrazioClient := { cl with writeMutex := false }

def lockRead (cl : OrazioClient) : Except Halt OrazioClient :=
  if cl.readMutex then .error .locked else .ok { cl with readMutex := true }

def unlockRead (cl : OrazioClient) : OrazioClient := { cl with readMutex := false }

/-! The serial line. -/

/- The loop of `_flushBuffer`, over the outcomes of its `write`s. -/
def flushLoop (cl : OrazioClient) : List Int → Except Halt OrazioClient
  | [] => if cl.packetHandler.tx.size = 0 then .ok { cl with fd := { cl.fd with writes := [] } } else .error .starved
  | res :: rest =>
    if cl.packetHandler.tx.size = 0 then .ok { cl with fd := { cl.fd with writes := res :: rest } }
    else
      let (c, handler) := cl.packetHandler.txByte
      flushLoop { cl with
        packetHandler := handler
        fd := { cl.fd with written := cl.fd.written ++ [c] }
        txBytes := cl.txBytes + res } rest

def flushBuffer (cl : OrazioClient) : Except Halt OrazioClient := flushLoop cl cl.fd.writes

def rxByte (cl : OrazioClient) (c : UInt8) : PacketStatus × OrazioClient :=
  let r := PacketHandler.rxByte operation cl.packetHandler ⟨cl.memory, ()⟩ c
  (r.status, { cl with packetHandler := r.handler, memory := r.world.memory })

/- The loop of `_readPacket`, over the outcomes of its `read`s. -/
def readLoop (cl : OrazioClient) : List ReadOutcome → Except Halt OrazioClient
  | [] => .error .starved
  | outcome :: rest =>
    let (status, cl) := if outcome.n ≠ 0 then rxByte cl outcome.c else (.success, cl)
    let cl := { cl with rxBytes := cl.rxBytes + outcome.n }
    if status = .syncChecksum then .ok { cl with fd := { cl.fd with reads := rest } } else readLoop cl rest

def readPacket (cl : OrazioClient) : Except Halt OrazioClient := readLoop cl cl.fd.reads

/-! The functions of orazio_client.h. -/

/- `_sendPacket`. -/
def enqueuePacket (cl : OrazioClient) (p : Addr) : PacketStatus × OrazioClient :=
  let cl := { cl with globalSeq := cl.globalSeq + 1 }
  let type := cl.memory p
  if type.toNat ≥ packetTypeMax then (.unknownType, cl)
  else
    let expectedSize := cl.packetSizes type
    if expectedSize = 0 then (.unknownType, cl)
    else if cl.memory (p + 1) ≠ expectedSize then (.invalidSize, cl)
    else
      let cl := { cl with memory := store16 cl.memory (p + 2) cl.globalSeq }
      let (status, handler) := PacketHandler.sendPacket cl.memory cl.packetHandler p
      (status, { cl with packetHandler := handler })

/- The `while(timeout>0)` loop: packets are read until the answer is among them. -/
def awaitResponse (cl : OrazioClient) (type : PacketType) (seq : PacketSeq) : Nat → Except Halt (PacketStatus × OrazioClient)
  | 0 => .ok (.timeout, cl)
  | timeout + 1 => do
    let cl ← readPacket cl
    if cl.memory (response + 4) = type ∧ load16 cl.memory (response + 5) = seq then .ok (.success, cl)
    else awaitResponse cl type seq timeout

def sendPacket (cl : OrazioClient) (p : Addr) (timeout : Int) : Except Halt (PacketStatus × OrazioClient) :=
  if timeout = 0 then do
    let cl ← lockWrite cl
    let (status, cl) := enqueuePacket cl p
    .ok (status, unlockWrite cl)
  else do
    let cl ← lockWrite cl
    let cl ← lockRead cl
    let (status, cl) := enqueuePacket cl p
    if status ≠ .success then .ok (status, unlockWrite (unlockRead cl))
    else
      let cl ← flushBuffer cl
      let (status, cl) ← awaitResponse cl (cl.memory p) (load16 cl.memory (p + 2)) timeout.toNat
      .ok (status, unlockWrite (unlockRead cl))

/- The do-while loop of `OrazioClient_sync`. Each turn takes at least one outcome
of `read`, so there are no more turns than outcomes. -/
def awaitEpoch (cl : OrazioClient) (current : PacketSeq) : Nat → Except Halt OrazioClient
  | 0 => .error .starved
  | turns + 1 => do
    let cl ← lockRead cl
    let cl ← readPacket cl
    let cl := unlockRead cl
    if current = load16 cl.memory (endEpoch + 2) then awaitEpoch cl current turns else .ok cl

def syncCycles (cl : OrazioClient) : Nat → Except Halt OrazioClient
  | 0 => .ok cl
  | cycles + 1 => do
    let cl ← lockWrite cl
    let cl ← flushBuffer cl
    let cl := if load16 cl.memory (driveControlPacket + 2) ≠ 0 then (enqueuePacket cl driveControlPacket).2 else cl
    let cl := unlockWrite cl
    let cl ← awaitEpoch cl (load16 cl.memory (endEpoch + 2)) (cl.fd.reads.length + 1)
    syncCycles cl cycles

def sync (cl : OrazioClient) (cycles : Int) : Except Halt (PacketStatus × OrazioClient) := do
  let cl ← syncCycles cl cycles.toNat
  .ok (.success, cl)

def get (cl : OrazioClient) (dest : Addr) : Except Halt (PacketStatus × OrazioClient) :=
  let type := cl.memory dest
  if inRange : type.toNat < packetTypeMax then
    match cl.packetHandler.operations ⟨type.toNat, inRange⟩ with
    | none => .ok (.unknownType, cl)
    | some ops =>
      if ops.type ≠ type then .error .aborted
      else do
        let cl ← lockRead cl
        if ops.indexed then
          let index := (cl.memory (dest + 4)).toNat
          if (index : Int) < 0 ∨ (index : Int) ≥ cl.numJoints then .ok (.genericError, cl)
          else
            let cl := { cl with memory := memcpy cl.memory dest (ops.dest + index * ops.size.toNat) ops.size.toNat }
            .ok (.success, unlockRead cl)
        else
          let cl := { cl with memory := memcpy cl.memory dest ops.dest ops.size.toNat }
          .ok (.success, unlockRead cl)
  else .ok (.packetTypeOutOfBounds, cl)

/- Velocities and positions are floats, here as their four bytes. -/
def setBaseVelocity (cl : OrazioClient) (tv rv : UInt32) : Except Halt OrazioClient := do
  let cl ← lockWrite cl
  let memory := store32 (store32 cl.memory (driveControlPacket + 4) tv) (driveControlPacket + 8) rv
  .ok (unlockWrite { cl with memory := store16 memory (driveControlPacket + 2) 1 })

def getOdometryPosition (cl : OrazioClient) (x y theta : Addr) : Except Halt OrazioClient := do
  let cl ← lockRead cl
  let memory := store32 cl.memory x (load32 cl.memory (driveStatus + 4))
  let memory := store32 memory y (load32 memory (driveStatus + 8))
  let memory := store32 memory theta (load32 memory (driveStatus + 12))
  .ok (unlockRead { cl with memory := memory })

/- One query of `OrazioClient_readConfiguration`; `query` is the address of its local variable. -/
def sendQuery (cl : OrazioClient) (query : Addr) (paramType index : UInt8) (timeout : Int) :
    Except Halt (PacketStatus × OrazioClient) :=
  sendPacket { cl with memory := store (store cl.memory (query + 5) paramType) (query + 6) index } query timeout

/- The loop over the joints, from joint `i` on. -/
def queryJoints (cl : OrazioClient) (query : Addr) (timeout : Int) (i : UInt8) :
    Nat → Except Halt (PacketStatus × OrazioClient)
  | 0 => .ok (.success, cl)
  | joints + 1 => do
    let (status, cl) ← sendQuery cl query paramJointsSingle i timeout
    if status ≠ .success then .ok (status, cl) else queryJoints cl query timeout (i + 1) joints

def readConfiguration (cl : OrazioClient) (query : Addr) (timeout : Int) : Except Halt (PacketStatus × OrazioClient) := do
  let memory := storeHeader cl.memory query paramControlPacketId sizeofParamControlPacket 0
  let cl := { cl with memory := store memory (query + 4) paramRequest }
  let (status, cl) ← sendQuery cl query paramSystem 0xFF timeout
  if status ≠ .success then .ok (status, cl)
  else
    let cl := { cl with numJoints := (cl.memory (systemParam + 23)).toNat }
    if load32 cl.memory (systemParam + 4) ≠ orazioProtocolVersion then .error .exited
    else if cl.numJoints > (numJointsMax : Int) then .error .exited
    else
      let (status, cl) ← queryJoints cl query timeout 0 cl.numJoints.toNat
      if status ≠ .success then .ok (status, cl)
      else
        let (status, cl) ← sendQuery cl query paramDrive 0xFF timeout
        if status ≠ .success then .ok (status, cl) else sendQuery cl query paramSonar 0xFF timeout

end OrazioClient
end OrazioLogger
