import OrazioLogger.TransmitRing

/-! Whole runs of the transmit ring: what leaves it, and what is still in it, are the frames of the
packets accepted, one after the other. -/
namespace OrazioLogger.PacketHandler
open ByteMemory RingBuffer

variable {P : Type}

inductive Transmission where
  | sendPacket (memory : Memory) (header : Addr)
  | txByte

/- `returned` are the bytes that were really in the ring, `sent` the packets accepted. -/
structure Transmitter (P : Type) where
  handler : PacketHandler P
  returned : List UInt8
  sent : List (List UInt8)

def transmit (t : Transmitter P) : Transmission → Transmitter P
  | .sendPacket memory header =>
    let (status, handler) := PacketHandler.sendPacket memory t.handler header
    { t with
      handler := handler
      sent := if status = .success then t.sent ++ [packetBytes memory header] else t.sent }
  | .txByte =>
    let (c, handler) := PacketHandler.txByte t.handler
    { t with
      handler := handler
      returned := if 0 < t.handler.tx.size then t.returned ++ [c] else t.returned }

def transmitAll (t : Transmitter P) (calls : List Transmission) : Transmitter P := calls.foldl transmit t

/- The handlers for which `sendPacket` calls `_putTxByte`, in its order. -/
def putTxBytesCalls (memory : Memory) (h : PacketHandler P) (buf : Addr) : Nat → List (PacketHandler P)
  | 0 => []
  | size + 1 =>
    let h := { h with txChecksum := h.txChecksum ^^^ memory buf }
    h :: putTxBytesCalls memory (putTxByte h (memory buf)) (buf + 1) size

def putTxByteCalls (memory : Memory) (h : PacketHandler P) (header : Addr) : List (PacketHandler P) :=
  let size := memory (header + 1)
  let txFree := packetSizeMax - h.tx.size
  let realSize : Int := size.toNat + 3
  if txFree < realSize then []
  else
    let second := putTxByte h 0xAA
    let body := { putTxByte second 0x55 with txChecksum := 0 }
    h :: second :: putTxBytesCalls memory body header size.toNat ++ [putTxBytes memory body header size.toNat]

section Calls
variable {memory : Memory} {header : Addr} {h : PacketHandler P}

theorem putTxBytesCallsRoom {size : Nat} {buf : Addr} (valid : Valid packetSizeMax h.tx)
    (room : h.tx.size + size ≤ packetSizeMax) : ∀ k ∈ putTxBytesCalls memory h buf size, k.tx.size < packetSizeMax := by
  induction size generalizing h buf with
  | zero => exact fun k none => absurd none List.not_mem_nil
  | succ size ih =>
    let summed : PacketHandler P := { h with txChecksum := h.txChecksum ^^^ memory buf }
    have free : summed.tx.size < packetSizeMax := by
      change h.tx.size < packetSizeMax
      omega
    obtain ⟨validOne, -, sizeOne, -, -⟩ := putTxByteQueues (h := summed) valid free (memory buf)
    have fits : (putTxByte summed (memory buf)).tx.size + size ≤ packetSizeMax := by
      rw [sizeOne]
      change h.tx.size + 1 + size ≤ packetSizeMax
      omega
    intro k member
    rcases List.mem_cons.mp member with rfl | later
    · exact free
    · exact ih validOne fits k later

/- The drop in `_putTxByte` is never reached. -/
theorem putTxByteCallsRoom (valid : Valid packetSizeMax h.tx) :
    ∀ k ∈ putTxByteCalls memory h header, k.tx.size < packetSizeMax := by
  unfold putTxByteCalls
  dsimp only
  split
  · exact fun k none => absurd none List.not_mem_nil
  · rename_i enough
    obtain ⟨validAA, -, sizeAA, -, -⟩ := putTxByteQueues valid (by omega) 0xAA
    obtain ⟨valid55, -, size55, -, -⟩ := putTxByteQueues validAA (by omega) 0x55
    let body : PacketHandler P := { putTxByte (putTxByte h 0xAA) 0x55 with txChecksum := 0 }
    have size : body.tx.size = h.tx.size + 1 + 1 := size55.trans (by rw [sizeAA])
    have fits : body.tx.size + ((memory (header + 1)).toNat : Int) ≤ packetSizeMax := by omega
    obtain ⟨-, -, sizeBody, -, -⟩ := putTxBytesQueue memory header (memory (header + 1)).toNat (h := body) valid55 fits
    intro k member
    rcases List.mem_cons.mp member with rfl | member
    · omega
    rcases List.mem_cons.mp member with rfl | member
    · omega
    rcases List.mem_append.mp member with looped | last
    · exact putTxBytesCallsRoom (h := body) valid55 fits k looped
    · rw [List.mem_singleton.mp last, sizeBody]
      omega

theorem sendPacketFull : (PacketHandler.sendPacket memory h header).1 = .txBufferFull ↔
    packetSizeMax - h.tx.size < (memory (header + 1)).toNat + 3 := by
  unfold PacketHandler.sendPacket
  dsimp only
  split
  · exact ⟨fun _ => by assumption, fun _ => rfl⟩
  · exact ⟨fun accepted => by simp at accepted, fun short => by contradiction⟩

end Calls

/- Nothing is lost and nothing is torn. -/
structure Conserved (t : Transmitter P) : Prop where
  ring : Valid packetSizeMax t.handler.tx
  bytes : t.returned ++ waiting t.handler = t.sent.flatMap frame

theorem transmitConserved {t : Transmitter P} (conserved : Conserved t) (call : Transmission) :
    Conserved (transmit t call) := by
  cases call with
  | sendPacket memory header =>
    simp only [transmit]
    by_cases short : packetSizeMax - t.handler.tx.size < (memory (header + 1)).toNat + 3
    · rw [sendPacketRefused short]
      exact ⟨conserved.ring, conserved.bytes⟩
    · obtain ⟨success, valid, queued, -⟩ := sendPacketQueues memory header conserved.ring (Int.not_lt.mp short)
      generalize PacketHandler.sendPacket memory t.handler header = r at success valid queued
      obtain ⟨status, handler⟩ := r
      obtain rfl : status = .success := success
      refine ⟨valid, ?_⟩
      calc t.returned ++ waiting handler
          = t.returned ++ waiting t.handler ++ frame (packetBytes memory header) := by rw [queued, List.append_assoc]
        _ = (t.sent ++ [packetBytes memory header]).flatMap frame := by
          rw [conserved.bytes, List.flatMap_append, List.flatMap_singleton]
  | txByte =>
    simp only [transmit]
    by_cases empty : t.handler.tx.size = 0
    · have same : PacketHandler.txByte t.handler = (0, t.handler) := by rw [PacketHandler.txByte, if_pos empty]
      rw [same]
      dsimp only
      rw [if_neg (by omega)]
      exact conserved
    · have low := conserved.ring.sizeLow
      obtain ⟨takes, valid, -⟩ := txByteTakes conserved.ring empty
      refine ⟨valid, ?_⟩
      dsimp only
      rw [if_pos (by omega), List.append_assoc, List.singleton_append, ← takes]
      exact conserved.bytes

theorem transmitAllConserved (calls : List Transmission) {t : Transmitter P} (conserved : Conserved t) :
    Conserved (transmitAll t calls) := by
  induction calls generalizing t with
  | nil => exact conserved
  | cons call rest ih => exact ih (transmitConserved conserved call)

theorem ringAtomic (blank : PacketHandler P) (calls : List Transmission) :
    let t := transmitAll ⟨initializeHandler blank, [], []⟩ calls
    t.returned ++ waiting t.handler = t.sent.flatMap frame ∧
    (0 ≤ t.handler.tx.size ∧ t.handler.tx.size ≤ packetSizeMax ∧
      t.handler.tx.stop = (t.handler.tx.start + t.handler.tx.size) % packetSizeMax) ∧
    ∀ memory header, let r := PacketHandler.sendPacket memory t.handler header
      (r.1 = .success ∨ r.1 = .txBufferFull) ∧
      (r.1 = .txBufferFull ↔ packetSizeMax - t.handler.tx.size < (memory (header + 1)).toNat + 3) ∧
      (r.1 = .txBufferFull → r.2 = t.handler) ∧
      ∀ k ∈ putTxByteCalls memory t.handler header, k.tx.size ≠ packetSizeMax := by
  have empty : Conserved (⟨initializeHandler blank, [], []⟩ : Transmitter P) :=
    ⟨validEmpty (by decide), contentsEmpty rfl⟩
  have conserved := transmitAllConserved calls empty
  refine ⟨conserved.bytes, ⟨conserved.ring.sizeLow, conserved.ring.sizeHigh, conserved.ring.stopAt⟩, ?_⟩
  intro memory header
  refine ⟨?_, sendPacketFull, fun full => ?_, fun k member => (putTxByteCallsRoom conserved.ring k member).ne⟩
  · by_cases short : packetSizeMax - (transmitAll ⟨initializeHandler blank, [], []⟩ calls).handler.tx.size <
        (memory (header + 1)).toNat + 3
    · exact Or.inr (sendPacketFull.mpr short)
    · exact Or.inl (sendPacketQueues memory header conserved.ring (Int.not_lt.mp short)).1
  · rw [sendPacketRefused (sendPacketFull.mp full)]

end OrazioLogger.PacketHandler
