import OrazioLogger.PacketHeader

/-! packet_handler.c. Entries of `operations` are pointers: `P` is their type and
`ops` follows one in the current world, so that an entry changed behind the
handler's back is seen changed. Each receive step also lists what it did to
the outside: the buffer asked for, the payload bytes stored, the callback made. -/
namespace OrazioLogger

inductive RxFn where
  | rxAA | rx55 | rxType | rxSize | rxPayload | rxChecksum
  deriving DecidableEq, Repr

open ByteMemory RingBuffer

structure PacketHandler (P : Type) where
  operations : Fin packetTypeMax → Option P
  rxCurrentOp : Option P
  rxCurrentPacket : Option Addr
  rxChecksum : UInt8
  rxBuffer : Option Addr
  rxBufferEnd : Option Addr
  rxBytesToRead : PacketSize
  rxFn : RxFn
  txBuffer : Int → UInt8
  tx : Indices
  txChecksum : UInt8

inductive RxEvent (P : Type) where
  | initializeBuffer (op : P) (packet : Option Addr)
  | write (address : Addr) (value : UInt8)
  | onReceive (op : P) (packet : Addr) (memory : Memory)

structure RxResult (P σ : Type) where
  status : PacketStatus
  handler : PacketHandler P
  world : World σ
  trace : List (RxEvent P)

namespace PacketHandler

variable {P σ : Type}

def initializeHandler (h : PacketHandler P) : PacketHandler P :=
  { h with
    operations := fun _ => none
    rxCurrentOp := none
    rxCurrentPacket := none
    rxChecksum := 0
    rxBuffer := none
    rxBufferEnd := none
    rxBytesToRead := 0
    rxFn := .rxAA
    tx := ⟨0,0,0⟩ }

def installPacket (ops : P → PacketOperations σ) (h : PacketHandler P) (p : P) : PacketStatus × PacketHandler P :=
  if inRange : (ops p).type.toNat < packetTypeMax then
    let slot : Fin packetTypeMax := ⟨(ops p).type.toNat, inRange⟩
    if (h.operations slot).isSome then (.packetInstallError, h)
    else (.success, { h with operations := Function.update h.operations slot (some p) })
  else (.packetTypeOutOfBounds, h)

def uninstallPacket (h : PacketHandler P) (type : PacketType) : PacketStatus × PacketHandler P :=
  if inRange : type.toNat < packetTypeMax then
    let slot : Fin packetTypeMax := ⟨type.toNat, inRange⟩
    if (h.operations slot).isNone then (.packetUninstallError, h)
    else (.success, { h with operations := Function.update h.operations slot none })
  else (.packetTypeOutOfBounds, h)

section Receive
variable (ops : World σ → P → PacketOperations σ)

def rxAA (h : PacketHandler P) (w : World σ) (c : UInt8) : RxResult P σ :=
  let h := { h with rxChecksum := 0 }
  if c = 0xAA then ⟨.syncAA, { h with rxFn := .rx55 }, w, []⟩
  else ⟨.unsync, h, w, []⟩

def rx55 (h : PacketHandler P) (w : World σ) (c : UInt8) : RxResult P σ :=
  if c = 0x55 then ⟨.sync55, { h with rxFn := .rxType, rxChecksum := 0 }, w, []⟩
  else ⟨.unsync, { h with rxFn := .rxAA }, w, []⟩

def rxType (h : PacketHandler P) (w : World σ) (c : UInt8) : RxResult P σ :=
  let h := { h with rxChecksum := h.rxChecksum ^^^ c }
  if inRange : c.toNat < packetTypeMax then
    let h := { h with rxCurrentOp := h.operations ⟨c.toNat, inRange⟩ }
    match h.rxCurrentOp with
    | none => ⟨.unknownType, { h with rxFn := .rxAA }, w, []⟩
    | some _ => ⟨.syncType, { h with rxFn := .rxSize }, w, []⟩
  else ⟨.unsync, { h with rxFn := .rxAA }, w, []⟩

/- Past `rxType` the current operation is never null, and past `rxSize` neither
are the buffer pointers; the null cases below are there for totality. -/
def rxSize (h : PacketHandler P) (w : World σ) (c : UInt8) : RxResult P σ :=
  match h.rxCurrentOp with
  | none => ⟨.noHandler, h, w, []⟩
  | some p =>
    let op := ops w p
    if op.size ≠ packetSizeAny ∧ op.size ≠ c then
      ⟨.invalidSize, { h with rxFn := .rxAA }, w, []⟩
    else
      let (packet, w) := op.initializeBufferFn op.type op.size w
      let h := { h with rxCurrentPacket := packet }
      match packet with
      | none => ⟨.rxBufferError, { h with rxFn := .rxAA }, w, [.initializeBuffer p none]⟩
      | some buffer =>
        let op := ops w p
        let h := { h with
          rxChecksum := h.rxChecksum ^^^ c
          rxBytesToRead := c - sizeofPacketHeader + sizeofPacketSeq
          rxBuffer := some buffer
          rxBufferEnd := some (buffer + 2)
          rxFn := .rxPayload }
        let memory := store (store w.memory buffer op.type) (buffer + 1) op.size
        ⟨.syncSize, h, { w with memory := memory },
          [.initializeBuffer p (some buffer), .write buffer op.type, .write (buffer + 1) op.size]⟩

def rxPayload (h : PacketHandler P) (w : World σ) (c : UInt8) : RxResult P σ :=
  let h := { h with rxChecksum := h.rxChecksum ^^^ c }
  let (w, trace) := match h.rxBufferEnd with
    | none => (w, [])
    | some address => ({ w with memory := store w.memory address c }, [RxEvent.write address c])
  let h := { h with rxBufferEnd := h.rxBufferEnd.map (· + 1), rxBytesToRead := h.rxBytesToRead - 1 }
  if h.rxBytesToRead = 0 then ⟨.syncPayloadComplete, { h with rxFn := .rxChecksum }, w, trace⟩
  else ⟨.syncPayload, h, w, trace⟩

def rxChecksumByte (h : PacketHandler P) (w : World σ) (c : UInt8) : RxResult P σ :=
  let h := { h with rxFn := .rxAA, rxBuffer := none, rxBufferEnd := none }
  if c = h.rxChecksum then
    match h.rxCurrentOp, h.rxCurrentPacket with
    | some p, some packet =>
      match (ops w p).onReceiveFn with
      | some onReceive => ⟨.syncChecksum, h, (onReceive packet w).2, [.onReceive p packet w.memory]⟩
      | none => ⟨.syncChecksum, h, w, []⟩
    | _, _ => ⟨.syncChecksum, h, w, []⟩
  else ⟨.checksumError, h, w, []⟩

def rxByte (h : PacketHandler P) (w : World σ) (c : UInt8) : RxResult P σ :=
  match h.rxFn with
  | .rxAA => rxAA h w c
  | .rx55 => rx55 h w c
  | .rxType => rxType h w c
  | .rxSize => rxSize ops h w c
  | .rxPayload => rxPayload h w c
  | .rxChecksum => rxChecksumByte ops h w c

structure RxRun (P σ : Type) where
  statuses : List PacketStatus
  handler : PacketHandler P
  world : World σ
  trace : List (RxEvent P)

def rxBytes (h : PacketHandler P) (w : World σ) : List UInt8 → RxRun P σ
  | [] => ⟨[], h, w, []⟩
  | c :: rest =>
    let first := rxByte ops h w c
    let later := rxBytes first.handler first.world rest
    ⟨first.status :: later.statuses, later.handler, later.world, first.trace ++ later.trace⟩

theorem rxBytesAppend (h : PacketHandler P) (w : World σ) (xs ys : List UInt8) :
    rxBytes ops h w (xs ++ ys) =
      let first := rxBytes ops h w xs
      let later := rxBytes ops first.handler first.world ys
      ⟨first.statuses ++ later.statuses, later.handler, later.world, first.trace ++ later.trace⟩ := by
  induction xs generalizing h w with
  | nil => rfl
  | cons c rest ih => simp [rxBytes, ih]

theorem rxBytesSnoc (h : PacketHandler P) (w : World σ) (xs : List UInt8) (c : UInt8) :
    rxBytes ops h w (xs ++ [c]) =
      let first := rxBytes ops h w xs
      let last := rxByte ops first.handler first.world c
      ⟨first.statuses ++ [last.status], last.handler, last.world, first.trace ++ last.trace⟩ := by
  rw [rxBytesAppend]
  simp only [rxBytes, List.append_nil]

end Receive

section Transmit

def putTxByte (h : PacketHandler P) (c : UInt8) : PacketHandler P :=
  if h.tx.size = packetSizeMax then h
  else { h with txBuffer := Function.update h.txBuffer h.tx.stop c, tx := bufferPut packetSizeMax h.tx }

def txByte (h : PacketHandler P) : UInt8 × PacketHandler P :=
  if h.tx.size = 0 then (0, h)
  else (h.txBuffer h.tx.start, { h with tx := bufferGet packetSizeMax h.tx })

/- The `while(size)` loop of `PacketHandler_sendPacket`. -/
def putTxBytes (memory : Memory) (h : PacketHandler P) (buf : Addr) : Nat → PacketHandler P
  | 0 => h
  | size + 1 =>
    let h := { h with txChecksum := h.txChecksum ^^^ memory buf }
    putTxBytes memory (putTxByte h (memory buf)) (buf + 1) size

def sendPacket (memory : Memory) (h : PacketHandler P) (header : Addr) : PacketStatus × PacketHandler P :=
  let size := memory (header + 1)
  let txFree := packetSizeMax - h.tx.size
  let realSize : Int := size.toNat + 3
  if txFree < realSize then (.txBufferFull, h)
  else
    let h := putTxByte (putTxByte h 0xAA) 0x55
    let h := { h with txChecksum := 0 }
    let h := putTxBytes memory h header size.toNat
    (.success, putTxByte h h.txChecksum)

end Transmit

end PacketHandler
end OrazioLogger
