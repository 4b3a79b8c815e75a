import OrazioLogger.PacketHandler

/-! The transmit side of packet_handler.c as a queue of bytes. A packet is put in
the ring whole, as one frame, or not at all. -/
namespace OrazioLogger.PacketHandler
open ByteMemory RingBuffer

variable {P : Type}

def xorSum (bytes : List UInt8) : UInt8 := bytes.foldl (· ^^^ ·) 0

/- What is on the line for one packet. -/
def frame (body : List UInt8) : List UInt8 := 0xAA :: 0x55 :: (body ++ [xorSum body])

theorem frameLength (body : List UInt8) : (frame body).length = body.length + 3 := by simp [frame]

theorem xorSumAppend (xs : List UInt8) (c : UInt8) : xorSum (xs ++ [c]) = xorSum xs ^^^ c := by
  simp [xorSum]

/- Bytes waiting in the ring, in the order they leave it. -/
def waiting (h : PacketHandler P) : List UInt8 := contents h.txBuffer packetSizeMax h.tx

structure TransmitOnly (h k : PacketHandler P) : Prop where
  same : k = { h with txBuffer := k.txBuffer, tx := k.tx, txChecksum := k.txChecksum }

theorem TransmitOnly.refl (h : PacketHandler P) : TransmitOnly h h := ⟨rfl⟩

theorem TransmitOnly.trans {h k l : PacketHandler P} (a : TransmitOnly h k) (b : TransmitOnly k l) :
    TransmitOnly h l := by
  refine ⟨?_⟩
  have first := a.same
  have second := b.same
  cases h; cases k; cases l
  simp only [mk.injEq] at first second ⊢
  simp_all

theorem putTxByteQueues {h : PacketHandler P} (valid : Valid packetSizeMax h.tx)
    (room : h.tx.size < packetSizeMax) (c : UInt8) :
    let k := putTxByte h c
    Valid packetSizeMax k.tx ∧ waiting k = waiting h ++ [c] ∧ k.tx.size = h.tx.size + 1 ∧
      k.txChecksum = h.txChecksum ∧ TransmitOnly h k := by
  have notFull : h.tx.size ≠ packetSizeMax := room.ne
  simp only [putTxByte, if_neg notFull, bufferPutPushes valid, waiting]
  exact ⟨pushValid valid room, contentsPush valid room c, by simp only [push], trivial, ⟨rfl⟩⟩

theorem putTxBytesQueue (memory : Memory) (buf : Addr) (size : Nat) {h : PacketHandler P}
    (valid : Valid packetSizeMax h.tx) (room : h.tx.size + size ≤ packetSizeMax) :
    let k := putTxBytes memory h buf size
    Valid packetSizeMax k.tx ∧ waiting k = waiting h ++ load memory buf size ∧
      k.tx.size = h.tx.size + size ∧
      k.txChecksum = (load memory buf size).foldl (· ^^^ ·) h.txChecksum ∧ TransmitOnly h k := by
  induction size generalizing h buf with
  | zero => simpa [putTxBytes, load] using ⟨valid, TransmitOnly.refl h⟩
  | succ size ih =>
    let summed : PacketHandler P := { h with txChecksum := h.txChecksum ^^^ memory buf }
    have free : summed.tx.size < packetSizeMax := by
      change h.tx.size < packetSizeMax
      omega
    obtain ⟨validOne, waitingOne, sizeOne, checksumOne, onlyOne⟩ :=
      putTxByteQueues (h := summed) valid free (memory buf)
    have fits : (putTxByte summed (memory buf)).tx.size + size ≤ packetSizeMax := by
      rw [sizeOne]
      change h.tx.size + 1 + size ≤ packetSizeMax
      omega
    obtain ⟨validAll, waitingAll, sizeAll, checksumAll, onlyAll⟩ := ih (buf + 1) validOne fits
    have only : TransmitOnly h (putTxByte summed (memory buf)) := TransmitOnly.trans ⟨rfl⟩ onlyOne
    refine ⟨validAll, ?_, ?_, ?_, only.trans onlyAll⟩
    · calc waiting (putTxBytes memory h buf (size + 1))
          = waiting (putTxByte summed (memory buf)) ++ load memory (buf + 1) size := waitingAll
        _ = waiting h ++ [memory buf] ++ load memory (buf + 1) size := by rw [waitingOne]; rfl
        _ = waiting h ++ load memory buf (size + 1) := by rw [loadCons]; simp
    · calc (putTxBytes memory h buf (size + 1)).tx.size
          = (putTxByte summed (memory buf)).tx.size + size := sizeAll
        _ = h.tx.size + 1 + size := by rw [sizeOne]
        _ = h.tx.size + ((size + 1 : Nat) : Int) := by push_cast; omega
    · calc (putTxBytes memory h buf (size + 1)).txChecksum
          = (load memory (buf + 1) size).foldl (· ^^^ ·) (putTxByte summed (memory buf)).txChecksum := checksumAll
        _ = (load memory (buf + 1) size).foldl (· ^^^ ·) (h.txChecksum ^^^ memory buf) := by rw [checksumOne]
        _ = (load memory buf (size + 1)).foldl (· ^^^ ·) h.txChecksum := by rw [loadCons, List.foldl_cons]

/- The bytes of a packet in memory: as many as its own size byte says. -/
def packetBytes (memory : Memory) (header : Addr) : List UInt8 :=
  load memory header (memory (header + 1)).toNat

theorem sendPacketRefused {memory : Memory} {h : PacketHandler P} {header : Addr}
    (short : packetSizeMax - h.tx.size < (memory (header + 1)).toNat + 3) :
    sendPacket memory h header = (.txBufferFull, h) := by
  simp [sendPacket, short]

theorem sendPacketQueues (memory : Memory) (header : Addr) {h : PacketHandler P}
    (valid : Valid packetSizeMax h.tx) (room : (memory (header + 1)).toNat + 3 ≤ packetSizeMax - h.tx.size) :
    let r := sendPacket memory h header
    r.1 = .success ∧ Valid packetSizeMax r.2.tx ∧
      waiting r.2 = waiting h ++ frame (packetBytes memory header) ∧ TransmitOnly h r.2 := by
  have enough : ¬ packetSizeMax - h.tx.size < (memory (header + 1)).toNat + 3 := by omega
  obtain ⟨validAA, waitingAA, sizeAA, -, onlyAA⟩ := putTxByteQueues valid (by omega) 0xAA
  obtain ⟨valid55, waiting55, size55, -, only55⟩ := putTxByteQueues validAA (by omega) 0x55
  let header55 : PacketHandler P := { putTxByte (putTxByte h 0xAA) 0x55 with txChecksum := 0 }
  have fits : header55.tx.size + ((memory (header + 1)).toNat : Int) ≤ packetSizeMax := by
    change (putTxByte (putTxByte h 0xAA) 0x55).tx.size + _ ≤ _
    omega
  obtain ⟨validBody, waitingBody, sizeBody, checksumBody, onlyBody⟩ :=
    putTxBytesQueue memory header (memory (header + 1)).toNat (h := header55) valid55 fits
  have sized : header55.tx.size = h.tx.size + 1 + 1 := size55.trans (by rw [sizeAA])
  obtain ⟨validLast, waitingLast, -, -, onlyLast⟩ := putTxByteQueues validBody (by omega)
    (putTxBytes memory header55 header (memory (header + 1)).toNat).txChecksum
  have queued : waiting header55 = waiting h ++ [0xAA] ++ [0x55] := waiting55.trans (by rw [waitingAA])
  have only : TransmitOnly h header55 := (onlyAA.trans only55).trans ⟨rfl⟩
  simp only [sendPacket, if_neg enough]
  refine ⟨trivial, validLast, ?_, (only.trans onlyBody).trans onlyLast⟩
  rw [waitingLast, waitingBody, checksumBody, queued]
  simp [frame, packetBytes, xorSum, header55]

theorem sendPacketSize (memory : Memory) (header : Addr) {h : PacketHandler P}
    (valid : Valid packetSizeMax h.tx) (room : (memory (header + 1)).toNat + 3 ≤ packetSizeMax - h.tx.size) :
    (sendPacket memory h header).2.tx.size = h.tx.size + ((memory (header + 1)).toNat + 3) := by
  obtain ⟨-, validAfter, queued, -⟩ := sendPacketQueues memory header valid room
  calc (sendPacket memory h header).2.tx.size
      = ((waiting (sendPacket memory h header).2).length : Int) := (contentsLength validAfter).symm
    _ = (waiting h).length + ((memory (header + 1)).toNat + 3) := by
      rw [queued, List.length_append, frameLength, packetBytes, loadLength]
      push_cast
      rfl
    _ = h.tx.size + ((memory (header + 1)).toNat + 3) := by rw [waiting, contentsLength valid]

theorem txByteTakes {h : PacketHandler P} (valid : Valid packetSizeMax h.tx) (some : h.tx.size ≠ 0) :
    let r := txByte h
    waiting h = r.1 :: waiting r.2 ∧ Valid packetSizeMax r.2.tx ∧ TransmitOnly h r.2 := by
  have positive : 0 < h.tx.size := by have := valid.sizeLow; omega
  simp only [txByte, if_neg some, bufferGetPops valid, waiting]
  exact ⟨contentsPop valid positive, popValid valid positive, ⟨rfl⟩⟩

theorem waitingEmpty {h : PacketHandler P} (valid : Valid packetSizeMax h.tx) :
    waiting h = [] ↔ h.tx.size = 0 := by
  have length : ((waiting h).length : Int) = h.tx.size := contentsLength valid
  constructor
  · intro empty
    simpa [empty] using length.symm
  · exact contentsEmpty

end OrazioLogger.PacketHandler
