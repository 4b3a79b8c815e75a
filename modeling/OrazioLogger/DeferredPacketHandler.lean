import OrazioLogger.Installation

/-! deferred_packet_handler.c. Received packets stay in the ring of their type
and their addresses queue up until they are processed outside the interrupt. -/
namespace OrazioLogger
open ByteMemory RingBuffer

def pendingPacketsMax : Nat := 8
def packetsPerTypeMax : Int := 2

/- `ops.type` and `ops.size` are the first two fields; the function pointers of
`ops` are always `_initializeBuffer` and `_onReceive`. The indices are those of
`packet_buffers`; its slots from PACKETS_PER_TYPE_MAX on are kept apart here, where the
source writes them over the fields behind the array. An action pointer stands with its arguments. -/
structure DeferredPacketOps (A : Type) where
  type : PacketType
  size : PacketSize
  packetBuffers : Int → Option Addr
  packetBuffersMax : Int
  packetBuffersIdx : Indices
  deferredActionFn : Option A

/- DeferredPacketHandler behind its base handler. `packetInfos` has entries for
types below PACKET_TYPE_MAX. `assertFailed` tells whether an assert has failed. -/
structure DeferredQueue (A : Type) where
  packetInfos : PacketType → DeferredPacketOps A
  pendingPackets : List Addr
  assertFailed : Bool

/- What a deferred action may reach: memory, the base handler (to send with) and
the program's own variables. -/
structure Surroundings (τ : Type) where
  baseHandler : PacketHandler PacketType
  memory : Memory
  app : τ

structure DeferredPacketHandler (A τ : Type) where
  outside : Surroundings τ
  queue : DeferredQueue A

/- A deferred action as it ran: its pointer, the packet and memory at the call. -/
structure ActionCall (A : Type) where
  action : A
  packet : Addr
  memory : Memory

namespace DeferredPacketHandler

variable {A τ : Type}

def initializeBuffer (type : PacketType) (_ : PacketSize) (w : World (DeferredQueue A)) :
    Option Addr × World (DeferredQueue A) :=
  let info := w.env.packetInfos type
  if info.packetBuffersIdx.size ≥ info.packetBuffersMax then (none, w)
  else (info.packetBuffers info.packetBuffersIdx.stop, w)

def onReceive (packet : Addr) (w : World (DeferredQueue A)) : PacketStatus × World (DeferredQueue A) :=
  let type := w.memory packet
  let queue := w.env
  let info := queue.packetInfos type
  let queue := { queue with
    assertFailed := queue.assertFailed || decide (info.packetBuffers info.packetBuffersIdx.stop ≠ some packet) }
  if queue.pendingPackets.length ≥ pendingPacketsMax then (.success, { w with env := queue })
  else
    let info := { info with packetBuffersIdx := bufferPut info.packetBuffersMax info.packetBuffersIdx }
    (.success, { w with env := { queue with
      pendingPackets := queue.pendingPackets ++ [packet]
      packetInfos := Function.update queue.packetInfos type info } })

/- `operations[type]` points to `packet_infos[type].ops`: following the pointer
reads the slot as it is now. -/
def operation (w : World (DeferredQueue A)) (slot : PacketType) : PacketOperations (DeferredQueue A) :=
  ⟨(w.env.packetInfos slot).type, (w.env.packetInfos slot).size, initializeBuffer, some onReceive⟩

def world (m : DeferredPacketHandler A τ) : World (DeferredQueue A) := ⟨m.outside.memory, m.queue⟩

/- A slot after `memset(&h->packet_infos, 0, ..)`. -/
def zeroedInfo : DeferredPacketOps A := ⟨0, 0, fun _ => none, 0, ⟨0,0,0⟩, none⟩

-- A program that gets here has not aborted yet.
def initializeHandler (outside : Surroundings τ) : DeferredPacketHandler A τ :=
  { outside := { outside with baseHandler := PacketHandler.initializeHandler outside.baseHandler }
    queue := { packetInfos := fun _ => zeroedInfo, pendingPackets := [], assertFailed := false } }

def installPacket (m : DeferredPacketHandler A τ) (type : PacketType) (size : PacketSize) (buffer : Addr)
    (numBuffers : Int) (action : Option A) : PacketStatus × DeferredPacketHandler A τ :=
  if type.toNat ≥ packetTypeMax then (.packetInstallError, m)
  else
    let info : DeferredPacketOps A :=
      { type := type
        size := size
        packetBuffers := fun i =>
          if 0 ≤ i ∧ i < numBuffers then some (buffer + i.toNat * size.toNat) else none
        packetBuffersMax := numBuffers
        packetBuffersIdx := ⟨0,0,0⟩
        deferredActionFn := action }
    let queue := { m.queue with packetInfos := Function.update m.queue.packetInfos type info }
    let (status, base) := PacketHandler.installPacket (operation ⟨m.outside.memory, queue⟩) m.outside.baseHandler type
    (status, { outside := { m.outside with baseHandler := base }, queue := queue })

def rxByte (m : DeferredPacketHandler A τ) (c : UInt8) :
    PacketStatus × DeferredPacketHandler A τ :=
  let r := PacketHandler.rxByte operation m.outside.baseHandler m.world c
  (r.status,
    { outside := { m.outside with baseHandler := r.handler, memory := r.world.memory }, queue := r.world.env })

def processPacket (act : A → Addr → Surroundings τ → Surroundings τ) (m : DeferredPacketHandler A τ) (p : Addr) :
    DeferredPacketHandler A τ × List (ActionCall A) :=
  let type := m.outside.memory p
  let info := m.queue.packetInfos type
  let failed := m.queue.assertFailed || decide (info.packetBuffers info.packetBuffersIdx.start ≠ some p)
  let (outside, calls) := match info.deferredActionFn with
    | none => (m.outside, [])
    | some action => (act action p m.outside, [⟨action,p,m.outside.memory⟩])
  let info := { info with packetBuffersIdx := bufferGet info.packetBuffersMax info.packetBuffersIdx }
  ({ outside := outside
     queue := { m.queue with
       packetInfos := Function.update m.queue.packetInfos type info, assertFailed := failed } }, calls)

/- The loop of `processPendingPackets`. Actions cannot reach the queue, so it
runs over the packets pending at its start. -/
def processLoop (act : A → Addr → Surroundings τ → Surroundings τ) (m : DeferredPacketHandler A τ) :
    List Addr → DeferredPacketHandler A τ × List (ActionCall A)
  | [] => (m, [])
  | p :: rest =>
    let (m, first) := processPacket act m p
    let (m, later) := processLoop act m rest
    (m, first ++ later)

def processPendingPackets (act : A → Addr → Surroundings τ → Surroundings τ) (m : DeferredPacketHandler A τ) :
    DeferredPacketHandler A τ × List (ActionCall A) :=
  let (m, calls) := processLoop act m m.queue.pendingPackets
  ({ m with queue := { m.queue with pendingPackets := [] } }, calls)

end DeferredPacketHandler
end OrazioLogger
