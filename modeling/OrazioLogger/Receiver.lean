import OrazioLogger.TransmitRing

/-! The receive side of packet_handler.c byte by byte: what each state does with
its byte, and what the handler knows of the frame it is in. -/
namespace OrazioLogger.PacketHandler
open ByteMemory

variable {P σ : Type}

def entry (h : PacketHandler P) (t : PacketType) : Option P :=
  if inRange : t.toNat < packetTypeMax then h.operations ⟨t.toNat, inRange⟩ else none

structure ReceiveOnly (h k : PacketHandler P) : Prop where
  operations : k.operations = h.operations
  txBuffer : k.txBuffer = h.txBuffer
  tx : k.tx = h.tx
  txChecksum : k.txChecksum = h.txChecksum

theorem ReceiveOnly.entry {h k : PacketHandler P} (only : ReceiveOnly h k) (t : PacketType) :
    k.entry t = h.entry t := by
  simp [PacketHandler.entry, only.operations]

theorem ReceiveOnly.trans {h k l : PacketHandler P} (a : ReceiveOnly h k) (b : ReceiveOnly k l) :
    ReceiveOnly h l :=
  ⟨b.1.trans a.1, b.2.trans a.2, b.3.trans a.3, b.4.trans a.4⟩

section Steps
variable (ops : World σ → P → PacketOperations σ)

structure Named (w : World σ) (p : P) (t : PacketType) (s : PacketSize) : Prop where
  type : (ops w p).type = t
  size : (ops w p).size = s
  low : 4 ≤ s.toNat
  high : s.toNat ≤ 254

structure SameNames (w v : World σ) : Prop where
  type : ∀ p, (ops v p).type = (ops w p).type
  size : ∀ p, (ops v p).size = (ops w p).size

/- Callbacks and payload bytes do not rename the installed operations. -/
structure StableOps : Prop where
  memory : ∀ w m, SameNames ops w { w with memory := m }
  buffer : ∀ w p t s, SameNames ops w ((ops w p).initializeBufferFn t s w).2
  receive : ∀ w p f packet, (ops w p).onReceiveFn = some f → SameNames ops w (f packet w).2

/- Every installed operation sits in the slot of its own type with a size in 4..254. -/
def FixedSizes (w : World σ) (h : PacketHandler P) : Prop :=
  ∀ t p, h.entry t = some p → ∃ s, Named ops w p t s

variable {ops}

theorem SameNames.refl (w : World σ) : SameNames ops w w := ⟨fun _ => rfl, fun _ => rfl⟩

theorem SameNames.trans {u v w : World σ} (a : SameNames ops u v) (b : SameNames ops v w) : SameNames ops u w :=
  ⟨fun p => (b.type p).trans (a.type p), fun p => (b.size p).trans (a.size p)⟩

theorem Named.keep {w v : World σ} {p : P} {t : PacketType} {s : PacketSize}
    (named : Named ops w p t s) (same : SameNames ops w v) : Named ops v p t s :=
  ⟨(same.type p).trans named.type, (same.size p).trans named.size, named.low, named.high⟩

theorem Named.notAny {w : World σ} {p : P} {t : PacketType} {s : PacketSize}
    (named : Named ops w p t s) : s ≠ packetSizeAny := by
  rintro rfl
  exact absurd named.high (by decide)

theorem FixedSizes.keep {w v : World σ} {h k : PacketHandler P} (fixed : FixedSizes ops w h)
    (same : SameNames ops w v) (only : ReceiveOnly h k) : FixedSizes ops v k := by
  intro t p found
  obtain ⟨s, named⟩ := fixed t p (by rwa [only.entry t] at found)
  exact ⟨s, named.keep same⟩

variable (ops) in
theorem rxByteReceiveOnly (h : PacketHandler P) (w : World σ) (c : UInt8) :
    ReceiveOnly h (rxByte ops h w c).handler := by
  cases fn : h.rxFn
  case rxAA => simp only [rxByte, fn, rxAA]; split <;> exact ⟨rfl,rfl,rfl,rfl⟩
  case rx55 => simp only [rxByte, fn, rx55]; split <;> exact ⟨rfl,rfl,rfl,rfl⟩
  case rxType =>
    simp only [rxByte, fn, rxType]
    split
    · split <;> exact ⟨rfl,rfl,rfl,rfl⟩
    · exact ⟨rfl,rfl,rfl,rfl⟩
  case rxSize =>
    simp only [rxByte, fn, rxSize]
    split
    · exact ⟨rfl,rfl,rfl,rfl⟩
    · split
      · exact ⟨rfl,rfl,rfl,rfl⟩
      · split <;> exact ⟨rfl,rfl,rfl,rfl⟩
  case rxPayload => simp only [rxByte, fn, rxPayload]; split <;> exact ⟨rfl,rfl,rfl,rfl⟩
  case rxChecksum =>
    simp only [rxByte, fn, rxChecksumByte]
    split
    · split
      · split <;> exact ⟨rfl,rfl,rfl,rfl⟩
      · exact ⟨rfl,rfl,rfl,rfl⟩
    · exact ⟨rfl,rfl,rfl,rfl⟩

theorem rxByteSameNames (stable : StableOps ops) (h : PacketHandler P) (w : World σ) (c : UInt8) :
    SameNames ops w (rxByte ops h w c).world := by
  cases fn : h.rxFn
  case rxAA => simp only [rxByte, fn, rxAA]; split <;> exact .refl w
  case rx55 => simp only [rxByte, fn, rx55]; split <;> exact .refl w
  case rxType =>
    simp only [rxByte, fn, rxType]
    split
    · split <;> exact .refl w
    · exact .refl w
  case rxSize =>
    simp only [rxByte, fn, rxSize]
    split
    · exact .refl w
    · rename_i p _
      split
      · exact .refl w
      · split
        · exact stable.buffer w p _ _
        · exact (stable.buffer w p _ _).trans (stable.memory _ _)
  case rxPayload =>
    simp only [rxByte, fn, rxPayload]
    cases h.rxBufferEnd <;> split <;> first | exact .refl w | exact stable.memory w _
  case rxChecksum =>
    simp only [rxByte, fn, rxChecksumByte]
    split
    · split
      · split
        · rename_i onReceive found
          exact stable.receive w _ onReceive _ found
        · exact .refl w
      · exact .refl w
    · exact .refl w

/-! The states in which a byte takes the handler forward. -/

theorem stepAA {h : PacketHandler P} {w : World σ} (fn : h.rxFn = .rxAA) :
    rxByte ops h w 0xAA = ⟨.syncAA, { h with rxChecksum := 0, rxFn := .rx55 }, w, []⟩ := by
  simp [rxByte, fn, rxAA]

theorem step55 {h : PacketHandler P} {w : World σ} (fn : h.rxFn = .rx55) :
    rxByte ops h w 0x55 = ⟨.sync55, { h with rxFn := .rxType, rxChecksum := 0 }, w, []⟩ := by
  simp [rxByte, fn, rx55]

theorem entryInRange {h : PacketHandler P} {t : PacketType} {p : P} (found : h.entry t = some p) :
    ∃ inRange : t.toNat < packetTypeMax, h.operations ⟨t.toNat, inRange⟩ = some p := by
  unfold entry at found
  split at found
  · exact ⟨‹_›, found⟩
  · contradiction

theorem stepType {h : PacketHandler P} {w : World σ} {t : PacketType} {p : P} (fn : h.rxFn = .rxType)
    (found : h.entry t = some p) :
    rxByte ops h w t =
      ⟨.syncType, { h with rxChecksum := h.rxChecksum ^^^ t, rxCurrentOp := some p, rxFn := .rxSize }, w, []⟩ := by
  obtain ⟨inRange, listed⟩ := entryInRange found
  simp [rxByte, fn, rxType, inRange, listed]

theorem stepSizeRefused {h : PacketHandler P} {w : World σ} {t : PacketType} {s : PacketSize} {p : P}
    (fn : h.rxFn = .rxSize) (current : h.rxCurrentOp = some p) (named : Named ops w p t s)
    (refused : ((ops w p).initializeBufferFn t s w).1 = none) :
    rxByte ops h w s =
      ⟨.rxBufferError, { h with rxCurrentPacket := none, rxFn := .rxAA },
        ((ops w p).initializeBufferFn t s w).2, [.initializeBuffer p none]⟩ := by
  obtain ⟨rfl, rfl, -, -⟩ := named
  simp [rxByte, fn, rxSize, current, refused]

theorem stepSizeGranted (stable : StableOps ops) {h : PacketHandler P} {w : World σ} {t : PacketType}
    {s : PacketSize} {p : P} {b : Addr} (fn : h.rxFn = .rxSize) (current : h.rxCurrentOp = some p)
    (named : Named ops w p t s) (granted : ((ops w p).initializeBufferFn t s w).1 = some b) :
    rxByte ops h w s =
      ⟨.syncSize,
        { h with
          rxCurrentPacket := some b
          rxChecksum := h.rxChecksum ^^^ s
          rxBytesToRead := s - sizeofPacketHeader + sizeofPacketSeq
          rxBuffer := some b
          rxBufferEnd := some (b + 2)
          rxFn := .rxPayload },
        { ((ops w p).initializeBufferFn t s w).2 with
          memory := store (store ((ops w p).initializeBufferFn t s w).2.memory b t) (b + 1) s },
        [.initializeBuffer p (some b), .write b t, .write (b + 1) s]⟩ := by
  obtain ⟨type, size, -, -⟩ := named.keep (stable.buffer w p t s)
  obtain ⟨rfl, rfl, -, -⟩ := named
  simp [rxByte, fn, rxSize, current, granted, type, size]

theorem oneLeft (n : UInt8) : n - 1 = 0 ↔ n = 1 := by
  rw [← UInt8.toNat_inj, ← UInt8.toNat_inj]
  have := n.toNat_lt
  simp [UInt8.toNat_sub]
  omega

theorem stepPayload {h : PacketHandler P} {w : World σ} {e : Addr} (fn : h.rxFn = .rxPayload)
    (stop : h.rxBufferEnd = some e) (c : UInt8) :
    rxByte ops h w c =
      ⟨if h.rxBytesToRead = 1 then .syncPayloadComplete else .syncPayload,
        { h with
          rxChecksum := h.rxChecksum ^^^ c
          rxBufferEnd := some (e + 1)
          rxBytesToRead := h.rxBytesToRead - 1
          rxFn := if h.rxBytesToRead = 1 then .rxChecksum else .rxPayload },
        { w with memory := store w.memory e c }, [.write e c]⟩ := by
  simp only [rxByte, fn, rxPayload, stop, Option.map_some, oneLeft]
  split <;> rfl

/- Handler once `rxChecksumByte` has let go of the buffer. -/
def released (h : PacketHandler P) : PacketHandler P :=
  { h with rxFn := .rxAA, rxBuffer := none, rxBufferEnd := none }

theorem stepDelivered {h : PacketHandler P} {w : World σ} {p : P} {b : Addr}
    {onReceive : Addr → World σ → PacketStatus × World σ} (fn : h.rxFn = .rxChecksum)
    (current : h.rxCurrentOp = some p) (packet : h.rxCurrentPacket = some b)
    (installed : (ops w p).onReceiveFn = some onReceive) :
    rxByte ops h w h.rxChecksum =
      ⟨.syncChecksum, released h, (onReceive b w).2, [.onReceive p b w.memory]⟩ := by
  simp [rxByte, fn, rxChecksumByte, released, current, packet, installed]

theorem stepSilent {h : PacketHandler P} {w : World σ} {p : P} {b : Addr} (fn : h.rxFn = .rxChecksum)
    (current : h.rxCurrentOp = some p) (packet : h.rxCurrentPacket = some b)
    (missing : (ops w p).onReceiveFn = none) :
    rxByte ops h w h.rxChecksum = ⟨.syncChecksum, released h, w, []⟩ := by
  simp [rxByte, fn, rxChecksumByte, released, current, packet, missing]

/-! The states in which a byte loses the frame. -/

theorem stepUnsync {h : PacketHandler P} {w : World σ} {c : UInt8} (fn : h.rxFn = .rxAA) (other : c ≠ 0xAA) :
    rxByte ops h w c = ⟨.unsync, { h with rxChecksum := 0 }, w, []⟩ := by
  simp [rxByte, fn, rxAA, other]

theorem stepHalfPreamble {h : PacketHandler P} {w : World σ} {c : UInt8} (fn : h.rxFn = .rx55) (other : c ≠ 0x55) :
    rxByte ops h w c = ⟨.unsync, { h with rxFn := .rxAA }, w, []⟩ := by
  simp [rxByte, fn, rx55, other]

variable (ops) in
theorem stepUnknownType {h : PacketHandler P} (w : World σ) {t : PacketType} (fn : h.rxFn = .rxType)
    (unknown : h.entry t = none) :
    ∃ status k, rxByte ops h w t = ⟨status, k, w, []⟩ ∧ status.code < 0 ∧ k.rxFn = .rxAA := by
  unfold entry at unknown
  split at unknown
  · rename_i inRange
    exact ⟨.unknownType, { h with rxChecksum := h.rxChecksum ^^^ t, rxCurrentOp := none, rxFn := .rxAA },
      by simp only [rxByte, fn, rxType, dif_pos inRange, unknown], by decide, rfl⟩
  · rename_i outOfRange
    exact ⟨.unsync, { h with rxChecksum := h.rxChecksum ^^^ t, rxFn := .rxAA },
      by simp only [rxByte, fn, rxType, dif_neg outOfRange], by decide, rfl⟩

theorem stepWrongSize {h : PacketHandler P} {w : World σ} {t : PacketType} {s c : PacketSize} {p : P}
    (fn : h.rxFn = .rxSize) (current : h.rxCurrentOp = some p) (named : Named ops w p t s) (wrong : s ≠ c) :
    rxByte ops h w c = ⟨.invalidSize, { h with rxFn := .rxAA }, w, []⟩ := by
  have any := named.notAny
  obtain ⟨rfl, rfl, -, -⟩ := named
  simp [rxByte, fn, rxSize, current, any, wrong]

theorem stepChecksumError {h : PacketHandler P} {w : World σ} {c : UInt8} (fn : h.rxFn = .rxChecksum)
    (wrong : c ≠ h.rxChecksum) : rxByte ops h w c = ⟨.checksumError, released h, w, []⟩ := by
  simp [rxByte, fn, rxChecksumByte, wrong, released]

variable (ops) in
/- `SyncChecksum` is said of nothing but the right checksum. -/
theorem incompleteStatus (h : PacketHandler P) (w : World σ) {c : UInt8}
    (incomplete : ¬ (h.rxFn = .rxChecksum ∧ c = h.rxChecksum)) : (rxByte ops h w c).status ≠ .syncChecksum := by
  cases fn : h.rxFn with
  | rxAA => simp only [rxByte, fn, rxAA]; split <;> simp
  | rx55 => simp only [rxByte, fn, rx55]; split <;> simp
  | rxType =>
    simp only [rxByte, fn, rxType]
    split
    · split <;> simp
    · simp
  | rxSize =>
    simp only [rxByte, fn, rxSize]
    split
    · simp
    · split
      · simp
      · split <;> simp
  | rxPayload => simp only [rxByte, fn, rxPayload]; split <;> simp
  | rxChecksum =>
    rw [stepChecksumError fn fun right => incomplete ⟨fn, right⟩]
    simp

variable (ops) in
theorem completeStatus {h : PacketHandler P} (w : World σ) (fn : h.rxFn = .rxChecksum) :
    (rxByte ops h w h.rxChecksum).status = .syncChecksum := by
  simp only [rxByte, fn, rxChecksumByte, if_true]
  split
  · split <;> rfl
  · rfl

/-! What the handler knows inside a frame: the bytes since the preamble began. -/

structure Filling (h : PacketHandler P) (w : World σ) (p : P) (b : Addr) (body : List UInt8) : Prop where
  current : h.rxCurrentOp = some p
  packet : h.rxCurrentPacket = some b
  stop : h.rxBufferEnd = some (b + body.length)
  stored : load w.memory b body.length = body
  checksum : h.rxChecksum = xorSum body

variable (ops) in
inductive Reading (w : World σ) (h : PacketHandler P) : List UInt8 → Prop where
  | hunting (fn : h.rxFn = .rxAA) : Reading w h []
  | preamble (fn : h.rxFn = .rx55) : Reading w h [0xAA]
  | synced (fn : h.rxFn = .rxType) (checksum : h.rxChecksum = 0) : Reading w h [0xAA,0x55]
  | typed {p t s} (fn : h.rxFn = .rxSize) (current : h.rxCurrentOp = some p) (found : h.entry t = some p)
      (named : Named ops w p t s) (checksum : h.rxChecksum = t) : Reading w h [0xAA,0x55,t]
  | payload {p t s b rest} (fn : h.rxFn = .rxPayload) (found : h.entry t = some p)
      (named : Named ops w p t s) (filling : Filling h w p b (t :: s :: rest))
      (left : h.rxBytesToRead.toNat + rest.length + 2 = s.toNat) (more : 0 < h.rxBytesToRead.toNat) :
      Reading w h (0xAA :: 0x55 :: t :: s :: rest)
  | complete {p t s b rest} (fn : h.rxFn = .rxChecksum) (found : h.entry t = some p)
      (named : Named ops w p t s) (filling : Filling h w p b (t :: s :: rest))
      (full : rest.length + 2 = s.toNat) : Reading w h (0xAA :: 0x55 :: t :: s :: rest)

/- One byte further in the payload, from the filled part of the buffer. -/
theorem fillingStored {h k : PacketHandler P} {w : World σ} {p : P} {b : Addr} {body : List UInt8}
    (filling : Filling h w p b body) (c : UInt8) (current : k.rxCurrentOp = h.rxCurrentOp)
    (packet : k.rxCurrentPacket = h.rxCurrentPacket) (stop : k.rxBufferEnd = some (b + body.length + 1))
    (checksum : k.rxChecksum = h.rxChecksum ^^^ c) :
    Filling k { w with memory := store w.memory (b + body.length) c } p b (body ++ [c]) where
  current := current.trans filling.current
  packet := packet.trans filling.packet
  stop := by simp [stop, Nat.add_assoc]
  stored := by rw [List.length_append, List.length_singleton, loadStoreEnd, filling.stored]
  checksum := by rw [checksum, filling.checksum, xorSumAppend]

theorem headerBytes (m : Memory) (b : Addr) (t : PacketType) (s : PacketSize) :
    load (store (store m b t) (b + 1) s) b 2 = [t,s] := by
  have first : load (store m b t) b 1 = [t] := by simp [load]
  rw [loadStoreEnd, first]
  rfl

theorem sizeGranted (stable : StableOps ops) {h : PacketHandler P} {w : World σ} {p : P} {t : PacketType}
    {s : PacketSize} {b : Addr} (fn : h.rxFn = .rxSize) (current : h.rxCurrentOp = some p)
    (found : h.entry t = some p) (named : Named ops w p t s) (checksum : h.rxChecksum = t)
    (granted : ((ops w p).initializeBufferFn t s w).1 = some b) :
    ∃ k v, rxByte ops h w s =
        ⟨.syncSize, k, v, [.initializeBuffer p (some b), .write b t, .write (b + 1) s]⟩ ∧
      v = { ((ops w p).initializeBufferFn t s w).2 with
        memory := store (store ((ops w p).initializeBufferFn t s w).2.memory b t) (b + 1) s } ∧
      Filling k v p b [t,s] ∧ Reading ops v k [0xAA,0x55,t,s] := by
  have fits : (s - sizeofPacketHeader + sizeofPacketSeq).toNat = s.toNat - 2 := by
    have := named.low; have := named.high
    simp [sizeofPacketHeader, sizeofPacketSeq, UInt8.toNat_add, UInt8.toNat_sub]
    omega
  have kept := named.keep ((stable.buffer w p t s).trans (stable.memory _
    (store (store ((ops w p).initializeBufferFn t s w).2.memory b t) (b + 1) s)))
  have filling : Filling (P := P) (σ := σ)
      { h with
        rxCurrentPacket := some b
        rxChecksum := h.rxChecksum ^^^ s
        rxBytesToRead := s - sizeofPacketHeader + sizeofPacketSeq
        rxBuffer := some b
        rxBufferEnd := some (b + 2)
        rxFn := .rxPayload }
      { ((ops w p).initializeBufferFn t s w).2 with
        memory := store (store ((ops w p).initializeBufferFn t s w).2.memory b t) (b + 1) s } p b [t,s] :=
    ⟨current, rfl, rfl, headerBytes _ b t s, by simp [checksum, xorSum]⟩
  have := named.low
  refine ⟨_, _, stepSizeGranted stable fn current named granted, rfl, filling, .payload rfl found kept filling ?_ ?_⟩
  · simp only [fits, List.length_nil]; omega
  · simp only [fits]; omega

theorem payloadStored (stable : StableOps ops) {h : PacketHandler P} {w : World σ} {p : P} {t : PacketType}
    {s : PacketSize} {b : Addr} {rest : List UInt8} (fn : h.rxFn = .rxPayload) (found : h.entry t = some p)
    (named : Named ops w p t s) (filling : Filling h w p b (t :: s :: rest))
    (left : h.rxBytesToRead.toNat + rest.length + 2 = s.toNat) (more : 0 < h.rxBytesToRead.toNat) (c : UInt8) :
    ∃ status k v, rxByte ops h w c = ⟨status, k, v, [.write (b + (rest.length + 2)) c]⟩ ∧ 0 < status.code ∧
      v = { w with memory := store w.memory (b + (rest.length + 2)) c } ∧
      Filling k v p b (t :: s :: (rest ++ [c])) ∧ Reading ops v k (0xAA :: 0x55 :: t :: s :: (rest ++ [c])) := by
  have kept := named.keep (stable.memory w (store w.memory (b + (rest.length + 2)) c))
  have fewer : (h.rxBytesToRead - 1).toNat = h.rxBytesToRead.toNat - 1 := by
    have := h.rxBytesToRead.toNat_lt
    simp [UInt8.toNat_sub]
    omega
  have next (fn : RxFn) := fillingStored (k := { h with
    rxChecksum := h.rxChecksum ^^^ c, rxBufferEnd := some (b + (rest.length + 2) + 1)
    rxBytesToRead := h.rxBytesToRead - 1, rxFn := fn }) filling c rfl rfl rfl rfl
  rw [stepPayload fn filling.stop c]
  by_cases last : h.rxBytesToRead = 1
  · have one : h.rxBytesToRead.toNat = 1 := by rw [last]; rfl
    simp only [if_pos last]
    refine ⟨_, _, _, rfl, by decide, rfl, next .rxChecksum, .complete rfl found kept (next .rxChecksum) ?_⟩
    simp only [List.length_append, List.length_singleton]
    omega
  · have notOne : h.rxBytesToRead.toNat ≠ 1 := fun one => last (UInt8.toNat_inj.mp one)
    simp only [if_neg last]
    refine ⟨_, _, _, rfl, by decide, rfl, next .rxPayload, .payload rfl found kept (next .rxPayload) ?_ ?_⟩
    · simp only [fewer, List.length_append, List.length_singleton]; omega
    · simp only [fewer]; omega

theorem TransmitOnly.entry {h k : PacketHandler P} (only : TransmitOnly h k) (t : PacketType) :
    k.entry t = h.entry t := by
  rw [only.same]; rfl

theorem Filling.keep {h k : PacketHandler P} {w v : World σ} {p : P} {b : Addr} {body : List UInt8}
    (filling : Filling h w p b body) (only : TransmitOnly h k)
    (same : ∀ x, Inside b body.length x → v.memory x = w.memory x) : Filling k v p b body := by
  rw [only.same]
  exact ⟨filling.current, filling.packet, filling.stop,
    (loadCongr same).trans filling.stored, filling.checksum⟩

theorem Reading.keep {h k : PacketHandler P}
    {w v : World σ} {seen : List UInt8} (reading : Reading ops w h seen) (only : TransmitOnly h k)
    (names : SameNames ops w v)
    (same : ∀ b s x, h.rxCurrentPacket = some b → seen[3]? = some s → Inside b s.toNat x → v.memory x = w.memory x) :
    Reading ops v k seen := by
  have entry := only.entry
  cases reading with
  | hunting fn => exact .hunting (by rw [only.same]; exact fn)
  | preamble fn => exact .preamble (by rw [only.same]; exact fn)
  | synced fn checksum => exact .synced (by rw [only.same]; exact fn) (by rw [only.same]; exact checksum)
  | typed fn current found named checksum =>
    exact .typed (by rw [only.same]; exact fn) (by rw [only.same]; exact current) ((entry _).trans found)
      (named.keep names) (by rw [only.same]; exact checksum)
  | @payload p t s b rest fn found named filling left more =>
    have kept : Filling k v p b (t :: s :: rest) := filling.keep only fun x inside =>
      same b s x filling.packet rfl ⟨inside.1, by have := inside.2; simp only [List.length_cons] at this; omega⟩
    exact .payload (by rw [only.same]; exact fn) ((entry t).trans found) (named.keep names) kept
      (by rw [only.same]; exact left) (by rw [only.same]; exact more)
  | @complete p t s b rest fn found named filling full =>
    have kept : Filling k v p b (t :: s :: rest) := filling.keep only fun x inside =>
      same b s x filling.packet rfl ⟨inside.1, by have := inside.2; simp only [List.length_cons] at this; omega⟩
    exact .complete (by rw [only.same]; exact fn) ((entry t).trans found) (named.keep names) kept full

/-! One byte from a known position: everything the step can do. -/

variable (ops) in
inductive Advance (w : World σ) (h : PacketHandler P) : List UInt8 → UInt8 → RxResult P σ → List UInt8 → Prop where
  | lost {seen c r} (fn : r.handler.rxFn = .rxAA) (negative : r.status.code < 0)
      (world : r.world = w) (trace : r.trace = []) : Advance w h seen c r []
  | gained {seen c status k} (early : seen.length < 3) (positive : 0 < status.code)
      (reading : Reading ops w k (seen ++ [c])) : Advance w h seen c ⟨status,k,w,[]⟩ (seen ++ [c])
  | refused {p t s k} (named : Named ops w p t s) (found : h.entry t = some p)
      (full : ((ops w p).initializeBufferFn t s w).1 = none) (fn : k.rxFn = .rxAA) :
      Advance w h [0xAA,0x55,t] s
        ⟨.rxBufferError, k, ((ops w p).initializeBufferFn t s w).2, [.initializeBuffer p none]⟩ []
  | granted {p t s b k v} (named : Named ops w p t s) (found : h.entry t = some p)
      (buffer : ((ops w p).initializeBufferFn t s w).1 = some b)
      (world : v = { ((ops w p).initializeBufferFn t s w).2 with
        memory := store (store ((ops w p).initializeBufferFn t s w).2.memory b t) (b + 1) s })
      (filling : Filling k v p b [t,s]) (reading : Reading ops v k [0xAA,0x55,t,s]) :
      Advance w h [0xAA,0x55,t] s
        ⟨.syncSize, k, v, [.initializeBuffer p (some b), .write b t, .write (b + 1) s]⟩ [0xAA,0x55,t,s]
  | stored {p t s b rest c status k v} (named : Named ops w p t s) (found : h.entry t = some p) (before : Filling h w p b (t :: s :: rest))
      (room : rest.length + 2 < s.toNat) (positive : 0 < status.code)
      (world : v = { w with memory := store w.memory (b + (rest.length + 2)) c })
      (filling : Filling k v p b (t :: s :: (rest ++ [c])))
      (reading : Reading ops v k (0xAA :: 0x55 :: t :: s :: (rest ++ [c]))) :
      Advance w h (0xAA :: 0x55 :: t :: s :: rest) c
        ⟨status, k, v, [.write (b + (rest.length + 2)) c]⟩ (0xAA :: 0x55 :: t :: s :: (rest ++ [c]))
  | delivered {p t s b rest onReceive} (named : Named ops w p t s) (found : h.entry t = some p)
      (filling : Filling h w p b (t :: s :: rest)) (full : rest.length + 2 = s.toNat)
      (installed : (ops w p).onReceiveFn = some onReceive) :
      Advance w h (0xAA :: 0x55 :: t :: s :: rest) (xorSum (t :: s :: rest))
        ⟨.syncChecksum, released h, (onReceive b w).2, [.onReceive p b w.memory]⟩ []
  | silent {p t s b rest} (named : Named ops w p t s) (found : h.entry t = some p)
      (filling : Filling h w p b (t :: s :: rest)) (full : rest.length + 2 = s.toNat)
      (missing : (ops w p).onReceiveFn = none) :
      Advance w h (0xAA :: 0x55 :: t :: s :: rest) (xorSum (t :: s :: rest))
        ⟨.syncChecksum, released h, w, []⟩ []

variable {w : World σ} {h : PacketHandler P} {seen : List UInt8}

theorem Advance.reading {c : UInt8} {r : RxResult P σ} {next : List UInt8}
    (advance : Advance ops w h seen c r next) : Reading ops r.world r.handler next := by
  cases advance with
  | lost fn => exact .hunting fn
  | gained _ _ reading => exact reading
  | refused _ _ _ fn => exact .hunting fn
  | granted _ _ _ _ _ reading => exact reading
  | stored _ _ _ _ _ _ _ reading => exact reading
  | delivered => exact .hunting rfl
  | silent => exact .hunting rfl

theorem advanceType (fn : h.rxFn = .rxType) (checksum : h.rxChecksum = 0) (fixed : FixedSizes ops w h) (c : UInt8) :
    ∃ next, Advance ops w h [0xAA,0x55] c (rxByte ops h w c) next := by
  cases found : h.entry c with
  | some p =>
    obtain ⟨s, named⟩ := fixed c p found
    rw [stepType fn found]
    exact ⟨_, .gained (by simp) (by decide) (.typed rfl rfl found named (by simp [checksum]))⟩
  | none =>
    obtain ⟨status, k, result, negative, hunting⟩ := stepUnknownType ops w fn found
    rw [result]
    exact ⟨[], .lost hunting negative rfl rfl⟩

theorem advanceSize (stable : StableOps ops) {p : P} {t : PacketType} {s : PacketSize} (fn : h.rxFn = .rxSize)
    (current : h.rxCurrentOp = some p) (found : h.entry t = some p) (named : Named ops w p t s)
    (checksum : h.rxChecksum = t) (c : UInt8) :
    ∃ next, Advance ops w h [0xAA,0x55,t] c (rxByte ops h w c) next := by
  by_cases expected : s = c
  · subst c
    cases buffer : ((ops w p).initializeBufferFn t s w).1 with
    | none =>
      rw [stepSizeRefused fn current named buffer]
      exact ⟨_, .refused named found buffer rfl⟩
    | some b =>
      obtain ⟨k, v, result, world, filling, reading⟩ := sizeGranted stable fn current found named checksum buffer
      rw [result]
      exact ⟨_, .granted named found buffer world filling reading⟩
  · rw [stepWrongSize fn current named expected]
    exact ⟨[], .lost rfl (by simp [PacketStatus.code]) rfl rfl⟩

theorem advanceChecksum {p : P} {t : PacketType} {s : PacketSize} {b : Addr} {rest : List UInt8}
    (fn : h.rxFn = .rxChecksum) (found : h.entry t = some p) (named : Named ops w p t s)
    (filling : Filling h w p b (t :: s :: rest)) (full : rest.length + 2 = s.toNat) (c : UInt8) :
    Advance ops w h (0xAA :: 0x55 :: t :: s :: rest) c (rxByte ops h w c) [] := by
  by_cases right : c = h.rxChecksum
  · obtain rfl : c = xorSum (t :: s :: rest) := right.trans filling.checksum
    cases callback : (ops w p).onReceiveFn with
    | some onReceive =>
      rw [right, stepDelivered fn filling.current filling.packet callback, filling.checksum]
      exact .delivered named found filling full callback
    | none =>
      rw [right, stepSilent fn filling.current filling.packet callback, filling.checksum]
      exact .silent named found filling full callback
  · rw [stepChecksumError fn right]
    exact .lost rfl (by simp [PacketStatus.code]) rfl rfl

theorem advance (stable : StableOps ops) (fixed : FixedSizes ops w h) (reading : Reading ops w h seen) (c : UInt8) :
    ∃ next, Advance ops w h seen c (rxByte ops h w c) next := by
  cases reading with
  | hunting fn =>
    by_cases start : c = 0xAA
    · subst c
      rw [stepAA fn]
      exact ⟨_, .gained (by simp) (by decide) (.preamble rfl)⟩
    · rw [stepUnsync fn start]
      exact ⟨[], .lost fn (by simp [PacketStatus.code]) rfl rfl⟩
  | preamble fn =>
    by_cases second : c = 0x55
    · subst c
      rw [step55 fn]
      exact ⟨_, .gained (by simp) (by decide) (.synced rfl rfl)⟩
    · rw [stepHalfPreamble fn second]
      exact ⟨[], .lost rfl (by simp [PacketStatus.code]) rfl rfl⟩
  | synced fn checksum => exact advanceType fn checksum fixed c
  | typed fn current found named checksum => exact advanceSize stable fn current found named checksum c
  | payload fn found named filling left more =>
    obtain ⟨status, k, v, result, positive, world, filled, reading⟩ :=
      payloadStored stable fn found named filling left more c
    rw [result]
    exact ⟨_, .stored named found filling (by omega) positive world filled reading⟩
  | complete fn found named filling full => exact ⟨_, advanceChecksum fn found named filling full c⟩

end Steps
end OrazioLogger.PacketHandler
