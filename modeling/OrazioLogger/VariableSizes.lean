import OrazioLogger.FrameDelivery
import OrazioLogger.Installation

/-! Operations of size `PACKET_SIZE_ANY`: the size byte of a received packet is
the one of the operation table, and the counter of the bytes to read may wrap. -/
namespace OrazioLogger.PacketHandler
open ByteMemory RingBuffer

section Header
variable {P σ : Type} {ops : World σ → P → PacketOperations σ} {h : PacketHandler P} {w : World σ}

/- In the payload and behind it, the size byte of the packet is the one of its operation. -/
def SizeFromTable (ops : World σ → P → PacketOperations σ) (w : World σ) (h : PacketHandler P) : Prop :=
  h.rxFn = .rxPayload ∨ h.rxFn = .rxChecksum → ∀ p, h.rxCurrentOp = some p →
    ∃ b e : Nat, h.rxCurrentPacket = some b ∧ h.rxBufferEnd = some e ∧ b + 2 ≤ e ∧ w.memory (b + 1) = (ops w p).size

theorem elsewhereFromTable (payload : h.rxFn ≠ .rxPayload) (checksum : h.rxFn ≠ .rxChecksum) : SizeFromTable ops w h :=
  fun here => absurd here (by simp [payload, checksum])

theorem rxSizeFromTable (stable : StableOps ops) (fn : h.rxFn = .rxSize) (c : UInt8) :
    SizeFromTable ops (rxByte ops h w c).world (rxByte ops h w c).handler ∧ calls (rxByte ops h w c).trace = [] := by
  simp only [rxByte, fn, rxSize]
  split
  · exact ⟨elsewhereFromTable (by simp [fn]) (by simp [fn]), rfl⟩
  · rename_i p current
    split
    · exact ⟨elsewhereFromTable (by simp) (by simp), rfl⟩
    · split
      · exact ⟨elsewhereFromTable (by simp) (by simp), rfl⟩
      · rename_i b granted
        refine ⟨fun _ q named => ?_, rfl⟩
        obtain rfl : p = q := Option.some.inj (current.symm.trans named)
        exact ⟨b, b + 2, granted, rfl, le_rfl, (storeSame _ _ _).trans ((stable.memory _ _).size p).symm⟩

theorem rxByteFromTable (stable : StableOps ops) (here : SizeFromTable ops w h) (c : UInt8) :
    SizeFromTable ops (rxByte ops h w c).world (rxByte ops h w c).handler ∧
      ∀ p b m, (p, b, m) ∈ calls (rxByte ops h w c).trace → m (b + 1) = (ops w p).size := by
  cases fn : h.rxFn with
  | rxAA =>
    simp only [rxByte, fn, rxAA]
    split <;> exact ⟨elsewhereFromTable (by simp) (by simp), by simp [calls]⟩
  | rx55 =>
    simp only [rxByte, fn, rx55]
    split <;> exact ⟨elsewhereFromTable (by simp) (by simp), by simp [calls]⟩
  | rxType =>
    simp only [rxByte, fn, rxType]
    split
    · split <;> exact ⟨elsewhereFromTable (by simp) (by simp), by simp [calls]⟩
    · exact ⟨elsewhereFromTable (by simp) (by simp), by simp [calls]⟩
  | rxSize =>
    obtain ⟨next, silent⟩ := rxSizeFromTable (w := w) stable fn c
    exact ⟨next, by simp [silent]⟩
  | rxPayload =>
    have next (e : Nat) (stop : h.rxBufferEnd = some e) : SizeFromTable ops { w with memory := store w.memory e c }
        (rxByte ops h w c).handler := by
      intro _ p current
      rw [stepPayload fn stop] at current ⊢
      obtain ⟨b, e', packet, stop', below, size⟩ := here (Or.inl fn) p current
      obtain rfl := Option.some.inj (stop.symm.trans stop')
      refine ⟨b, e + 1, packet, rfl, by omega, ?_⟩
      rw [(stable.memory _ _).size, ← size]
      have other : b + 1 ≠ e := by omega
      exact storeOther c other
    cases stop : h.rxBufferEnd with
    | some e =>
      have result : rxByte ops h w c = _ := stepPayload fn stop c
      rw [show (rxByte ops h w c).world = { w with memory := store w.memory e c } by rw [result]]
      exact ⟨next e stop, by rw [result]; simp [calls, RxEvent.call]⟩
    | none =>
      have lost : ∀ p, h.rxCurrentOp ≠ some p := by
        intro p current
        obtain ⟨b, e, -, found, -⟩ := here (Or.inl fn) p current
        rw [stop] at found
        contradiction
      simp only [rxByte, fn, rxPayload, stop]
      split <;> exact ⟨fun _ p current => absurd current (lost p), by simp [calls]⟩
  | rxChecksum =>
    have idle : SizeFromTable ops (rxByte ops h w c).world (rxByte ops h w c).handler := by
      have fnAfter : (rxByte ops h w c).handler.rxFn = .rxAA := by
        simp only [rxByte, fn, rxChecksumByte]
        split
        · split
          · split <;> rfl
          · rfl
        · rfl
      exact elsewhereFromTable (by simp [fnAfter]) (by simp [fnAfter])
    refine ⟨idle, ?_⟩
    simp only [rxByte, fn, rxChecksumByte]
    split
    · split
      · rename_i q packet current found
        split
        · intro p b m called
          obtain ⟨rfl, rfl, rfl⟩ : p = q ∧ b = packet ∧ m = w.memory := by simpa [calls, RxEvent.call] using called
          obtain ⟨b', e, packet', -, -, size⟩ := here (Or.inr fn) p current
          obtain rfl := Option.some.inj (found.symm.trans packet')
          exact size
        · simp [calls]
      · simp [calls]
    · simp [calls]

/- Whatever is received, the packets handed over have the size of the table in their header. -/
theorem callsFromTable (stable : StableOps ops) (bytes : List UInt8) (here : SizeFromTable ops w h) {p : P} {b : Addr}
    {m : Memory} (called : (p, b, m) ∈ calls (rxBytes ops h w bytes).trace) : m (b + 1) = (ops w p).size := by
  induction bytes generalizing h w with
  | nil => contradiction
  | cons c rest ih =>
    obtain ⟨next, now⟩ := rxByteFromTable stable here c
    rw [rxBytes, callsAppend, List.mem_append] at called
    rcases called with first | later
    · exact now p b m first
    · exact (ih next later).trans ((rxByteSameNames stable h w c).size p)

end Header

section AnySize
variable {P σ : Type} {ops : World σ → P → PacketOperations σ} {h : PacketHandler P} {w : World σ} {p : P} {t : PacketType}
  {b : Addr}

/- How many bytes the counter lets in before it reads zero. -/
def bytesLeft (n : PacketSize) : Nat := if n = 0 then 256 else n.toNat

theorem bytesLeftPositive (n : PacketSize) : 0 < bytesLeft n := by
  unfold bytesLeft
  split
  · decide
  · rename_i nonzero
    exact Nat.pos_of_ne_zero fun zero => nonzero (UInt8.toNat_inj.mp zero)

theorem bytesLeftNext {n : PacketSize} (notLast : n ≠ 1) : bytesLeft n = bytesLeft (n - 1) + 1 := by
  have low := n.toNat_lt
  have one : n.toNat ≠ 1 := fun one => notLast (UInt8.toNat_inj.mp one)
  have fewer : (n - 1).toNat = (255 + n.toNat) % 256 := UInt8.toNat_sub n 1
  simp only [bytesLeft, ← UInt8.toNat_inj, fewer, UInt8.toNat_zero]
  split <;> split <;> omega

/- The counter set from the size byte `c`: below 2 it has wrapped, at 2 it wraps at once. -/
theorem bytesLeftOf (c : PacketSize) :
    bytesLeft (c - sizeofPacketHeader + sizeofPacketSeq) = if 3 ≤ c.toNat then c.toNat - 2 else 254 + c.toNat := by
  have low := c.toNat_lt
  have counter : (c - sizeofPacketHeader + sizeofPacketSeq).toNat = (254 + c.toNat) % 256 := by
    simp only [sizeofPacketHeader, sizeofPacketSeq, UInt8.toNat_add, UInt8.toNat_sub]
    change ((2 ^ 8 - 4 + c.toNat) % 2 ^ 8 + 2) % 2 ^ 8 = _
    omega
  simp only [bytesLeft, ← UInt8.toNat_inj, counter, UInt8.toNat_zero]
  split <;> split <;> omega

/- The bytes a receive step stores. -/
def RxEvent.written : RxEvent P → Option (Addr × UInt8)
  | .write a c => some (a, c)
  | _ => none

def writes (trace : List (RxEvent P)) : List (Addr × UInt8) := trace.filterMap RxEvent.written

theorem writesAppend (xs ys : List (RxEvent P)) : writes (xs ++ ys) = writes xs ++ writes ys := by simp [writes]

/- What the receiver has of a packet of an operation of any size, `c` its size byte on the line. -/
structure AnyFilling (h : PacketHandler P) (w : World σ) (p : P) (b : Addr) (t : PacketType) (c : PacketSize)
    (rest : List UInt8) : Prop where
  current : h.rxCurrentOp = some p
  packet : h.rxCurrentPacket = some b
  stop : h.rxBufferEnd = some (b + (rest.length + 2))
  stored : load w.memory b (rest.length + 2) = t :: packetSizeAny :: rest
  checksum : h.rxChecksum = xorSum (t :: c :: rest)

/- The installed operation has this type and any size. -/
structure AnySize (ops : World σ → P → PacketOperations σ) (w : World σ) (p : P) (t : PacketType) : Prop where
  type : (ops w p).type = t
  size : (ops w p).size = packetSizeAny

theorem stepSizeAny (stable : StableOps ops) {c : PacketSize} (fn : h.rxFn = .rxSize) (current : h.rxCurrentOp = some p)
    (any : AnySize ops w p t) (checksum : h.rxChecksum = t)
    (granted : ((ops w p).initializeBufferFn t packetSizeAny w).1 = some b) :
    let r := rxByte ops h w c
    AnyFilling r.handler r.world p b t c [] ∧ r.handler.rxFn = .rxPayload ∧
      r.handler.rxBytesToRead = c - sizeofPacketHeader + sizeofPacketSeq ∧ 0 < r.status.code ∧ calls r.trace = [] ∧
      (writes r.trace).length = 2 := by
  have type := (stable.buffer w p t packetSizeAny).type p
  have size := (stable.buffer w p t packetSizeAny).size p
  obtain ⟨rfl, any⟩ := any
  simp only [rxByte, fn, rxSize, current, any, granted, ne_eq, not_true_eq_false, false_and, if_false, type, size]
  refine ⟨⟨rfl, rfl, rfl, ?_, by simp [checksum, xorSum]⟩, trivial, trivial, by decide, rfl, rfl⟩
  exact headerBytes _ b _ _

variable (ops) in
theorem stepPayloadAny {c : PacketSize} {rest : List UInt8} (fn : h.rxFn = .rxPayload) (filling : AnyFilling h w p b t c rest)
    (x : UInt8) :
    let r := rxByte ops h w x
    AnyFilling r.handler r.world p b t c (rest ++ [x]) ∧
      r.handler.rxFn = (if h.rxBytesToRead = 1 then .rxChecksum else .rxPayload) ∧
      r.handler.rxBytesToRead = h.rxBytesToRead - 1 ∧ 0 < r.status.code ∧ calls r.trace = [] ∧ (writes r.trace).length = 1 := by
  rw [stepPayload fn filling.stop]
  refine ⟨⟨filling.current, filling.packet, ?_, ?_, ?_⟩, rfl, rfl, ?_, rfl, rfl⟩
  · have next : b + (rest.length + 2) + 1 = b + ((rest ++ [x]).length + 2) := by
      rw [List.length_append, List.length_singleton, Nat.add_right_comm rest.length, Nat.add_assoc]
    exact congrArg some next
  · rw [List.length_append, List.length_singleton, Nat.add_right_comm, loadStoreEnd, filling.stored]
    rfl
  · dsimp only
    rw [filling.checksum, ← xorSumAppend]
    rfl
  · dsimp only
    split <;> decide

theorem payloadRunAny {c : PacketSize} {rest : List UInt8} (more : List UInt8) (fn : h.rxFn = .rxPayload)
    (filling : AnyFilling h w p b t c rest) (fits : more.length ≤ bytesLeft h.rxBytesToRead) :
    let r := rxBytes ops h w more
    AnyFilling r.handler r.world p b t c (rest ++ more) ∧
      r.handler.rxFn = (if more.length = bytesLeft h.rxBytesToRead then .rxChecksum else .rxPayload) ∧
      Quiet r.statuses r.trace ∧ (writes r.trace).length = more.length := by
  induction more generalizing h w rest with
  | nil =>
    have positive := bytesLeftPositive h.rxBytesToRead
    rw [if_neg (by simp only [List.length_nil]; omega), List.append_nil]
    exact ⟨filling, fn, ⟨by simp [rxBytes], rfl⟩, rfl⟩
  | cons x more ih =>
    obtain ⟨filled, fnAfter, counter, positive, silent, one⟩ := stepPayloadAny ops fn filling x
    simp only [rxBytes]
    generalize rxByte ops h w x = first at filled fnAfter counter positive silent one
    have quiet : Quiet [first.status] first.trace := ⟨by simpa using positive, silent⟩
    by_cases last : h.rxBytesToRead = 1
    · obtain rfl : more = [] := by
        rw [last] at fits
        exact List.length_eq_zero_iff.mp (Nat.le_zero.mp (Nat.le_of_succ_le_succ fits))
      rw [if_pos last] at fnAfter
      rw [last, if_pos (show [x].length = bytesLeft 1 from rfl)]
      exact ⟨filled, fnAfter, quiet.append ⟨by simp [rxBytes], rfl⟩, by rw [writesAppend]; simpa [writes, rxBytes] using one⟩
    · have next := bytesLeftNext last
      rw [if_neg last] at fnAfter
      rw [List.length_cons, next] at fits
      rw [List.append_cons, List.length_cons, next, ← counter]
      obtain ⟨whole, fnLast, quietRest, more'⟩ := ih fnAfter filled (by rw [counter]; omega)
      refine ⟨whole, fnLast.trans (by simp only [Nat.add_right_cancel_iff]), quiet.append quietRest, ?_⟩
      rw [writesAppend, List.length_append, one, more', Nat.add_comm]

/- A receiver that has `payload` behind the size byte `c` of a packet of any size. -/
theorem payloadArrivesAny (stable : StableOps ops) (c : PacketSize) (payload : List UInt8) (fn : h.rxFn = .rxAA)
    (found : h.entry t = some p) (any : AnySize ops w p t)
    (granted : ((ops w p).initializeBufferFn t packetSizeAny w).1 = some b)
    (fits : payload.length ≤ bytesLeft (c - sizeofPacketHeader + sizeofPacketSeq)) :
    let r := rxBytes ops h w (0xAA :: 0x55 :: t :: c :: payload)
    AnyFilling r.handler r.world p b t c payload ∧
      r.handler.rxFn =
        (if payload.length = bytesLeft (c - sizeofPacketHeader + sizeofPacketSeq) then .rxChecksum else .rxPayload) ∧
      Quiet r.statuses r.trace ∧ (writes r.trace).length = payload.length + 2 := by
  let typed : PacketHandler P := { h with rxFn := .rxSize, rxChecksum := 0 ^^^ t, rxCurrentOp := some p }
  have header : rxBytes ops h w [0xAA,0x55,t] = ⟨[.syncAA,.sync55,.syncType], typed, w, []⟩ := typeArrives fn found
  obtain ⟨filled, fnAfter, counter, positive, silent, two⟩ :=
    stepSizeAny stable (h := typed) (c := c) rfl rfl any (by simp [typed]) granted
  rw [show 0xAA :: 0x55 :: t :: c :: payload = [0xAA,0x55,t] ++ c :: payload from rfl, rxBytesAppend, header]
  simp only [rxBytes, List.nil_append]
  generalize rxByte ops typed w c = first at filled fnAfter counter positive silent two
  rw [← counter] at fits ⊢
  obtain ⟨whole, fnLast, quiet, more⟩ := payloadRunAny payload fnAfter filled fits
  refine ⟨whole, fnLast, ?_, ?_⟩
  · have early : Quiet (P := P) [.syncAA,.sync55,.syncType] [] := ⟨by simp [PacketStatus.code], rfl⟩
    have sized : Quiet [first.status] first.trace := ⟨by simpa using positive, silent⟩
    exact (early.append sized).append quiet
  · rw [writesAppend, List.length_append, two, more, Nat.add_comm]

/- A whole frame: handed over once, with the size of the table in its header. -/
theorem frameDeliveredAny (stable : StableOps ops) {c : PacketSize} {payload : List UInt8} (fn : h.rxFn = .rxAA)
    (found : h.entry t = some p) (any : AnySize ops w p t)
    (granted : ((ops w p).initializeBufferFn t packetSizeAny w).1 = some b) (callback : ∀ v, (ops v p).onReceiveFn.isSome)
    (low : 3 ≤ c.toNat) (full : payload.length + 2 = c.toNat) :
    ∃ m, calls (rxBytes ops h w (frame (t :: c :: payload))).trace = [(p, b, m)] ∧
      load m b c.toNat = t :: packetSizeAny :: payload := by
  have left : payload.length = bytesLeft (c - sizeofPacketHeader + sizeofPacketSeq) := by
    rw [bytesLeftOf, if_pos low]
    omega
  obtain ⟨filled, fnLast, quiet, -⟩ := payloadArrivesAny stable c payload fn found any granted left.le
  rw [if_pos left] at fnLast
  rw [show frame (t :: c :: payload) = (0xAA :: 0x55 :: t :: c :: payload) ++ [xorSum (t :: c :: payload)] from rfl, rxBytesSnoc]
  generalize rxBytes ops h w (0xAA :: 0x55 :: t :: c :: payload) = r at filled fnLast quiet
  obtain ⟨onReceive, installed⟩ := Option.isSome_iff_exists.mp (callback r.world)
  have delivered := stepDelivered fnLast filled.current filled.packet installed
  rw [filled.checksum] at delivered
  simp only [delivered]
  refine ⟨r.world.memory, by rw [callsAppend, quiet.noCall]; rfl, ?_⟩
  rw [← full]
  exact filled.stored

end AnySize

/- Stored before the receiver leaves the payload: the bytes of a header and a payload up to then. -/
def BoundedWrites {P σ : Type} (ops : World σ → P → PacketOperations σ) (h : PacketHandler P) (w : World σ) (t : PacketType)
    (c : PacketSize) : Prop :=
  ∀ payload : List UInt8,
    (∀ earlier later, payload = earlier ++ later → later ≠ [] →
      (rxBytes ops h w (0xAA :: 0x55 :: t :: c :: earlier)).handler.rxFn = .rxPayload) →
    (writes (rxBytes ops h w (0xAA :: 0x55 :: t :: c :: payload)).trace).length ≤ max c.toNat 2

section Bound
variable {P σ : Type} {ops : World σ → P → PacketOperations σ} {h : PacketHandler P} {w : World σ} {p : P} {t : PacketType}
  {b : Addr} {c : PacketSize}

theorem boundedFromThree (stable : StableOps ops) (fn : h.rxFn = .rxAA) (found : h.entry t = some p)
    (any : AnySize ops w p t) (granted : ((ops w p).initializeBufferFn t packetSizeAny w).1 = some b) (low : 3 ≤ c.toNat) :
    BoundedWrites ops h w t c := by
  intro payload inside
  have left : bytesLeft (c - sizeofPacketHeader + sizeofPacketSeq) = c.toNat - 2 := by rw [bytesLeftOf, if_pos low]
  have fits : payload.length ≤ bytesLeft (c - sizeofPacketHeader + sizeofPacketSeq) := by
    by_contra more
    have full : (payload.take (c.toNat - 2)).length = bytesLeft (c - sizeofPacketHeader + sizeofPacketSeq) := by
      rw [List.length_take, left]
      omega
    have still := inside _ _ (List.take_append_drop (c.toNat - 2) payload).symm (by
      rw [ne_eq, List.drop_eq_nil_iff]
      omega)
    obtain ⟨-, complete, -⟩ := payloadArrivesAny stable c _ fn found any granted full.le
    rw [still, if_pos full] at complete
    contradiction
  obtain ⟨-, -, -, stored⟩ := payloadArrivesAny stable c payload fn found any granted fits
  rw [stored]
  omega

/- A counter that has wrapped lets in a payload of zeros of more than 253 bytes. -/
theorem wrappedUnbounded (stable : StableOps ops) (fn : h.rxFn = .rxAA) (found : h.entry t = some p)
    (any : AnySize ops w p t) (granted : ((ops w p).initializeBufferFn t packetSizeAny w).1 = some b) (low : c.toNat < 3) :
    ¬ BoundedWrites ops h w t c := by
  intro bounded
  have left : bytesLeft (c - sizeofPacketHeader + sizeofPacketSeq) = 254 + c.toNat := by
    rw [bytesLeftOf, if_neg (Nat.not_le.mpr low)]
  let payload : List UInt8 := List.replicate (254 + c.toNat) 0
  have length : payload.length = 254 + c.toNat := List.length_replicate
  have stored := bounded payload fun earlier later split more => by
    have shorter : earlier.length < payload.length := by
      rw [split, List.length_append]
      exact Nat.lt_add_of_pos_right (List.length_pos_iff.mpr more)
    obtain ⟨-, still, -⟩ := payloadArrivesAny stable c earlier fn found any granted (by omega)
    rw [still, if_neg (by omega)]
  obtain ⟨-, -, -, all⟩ := payloadArrivesAny stable c payload fn found any granted (by omega)
  rw [all, length] at stored
  omega

end Bound

/- Never delivered as sent; bounded by the size byte exactly from 3 on. -/
theorem anySizeReceived {P σ : Type} (ops : World σ → P → PacketOperations σ) (stable : StableOps ops) (h : PacketHandler P)
    (w : World σ) (p : P) (t : PacketType) (b : Addr) (fn : h.rxFn = .rxAA) (found : h.entry t = some p)
    (any : AnySize ops w p t) (granted : ((ops w p).initializeBufferFn t packetSizeAny w).1 = some b)
    (callback : ∀ v, (ops v p).onReceiveFn.isSome) :
    (∀ {Q : Type} (sender : PacketHandler Q) (memory : Memory) (header : Addr), Valid packetSizeMax sender.tx →
      memory header = t → 4 ≤ (memory (header + 1)).toNat → (memory (header + 1)).toNat ≤ 251 →
      (sendPacket memory sender header).1 = .success →
      ∃ sent, waiting (sendPacket memory sender header).2 = waiting sender ++ sent ∧
        (∃ m, calls (rxBytes ops h w sent).trace = [(p, b, m)] ∧
          load m b (memory (header + 1)).toNat =
            t :: packetSizeAny :: load memory (header + 2) ((memory (header + 1)).toNat - 2)) ∧
        ¬ ∃ m, calls (rxBytes ops h w sent).trace = [(p, b, m)] ∧
          load m b (memory (header + 1)).toNat = packetBytes memory header) ∧
    ∀ c : PacketSize, c ≠ packetSizeAny → (BoundedWrites ops h w t c ↔ 3 ≤ c.toNat) := by
  refine ⟨fun sender memory header valid type low high sent => ?_, fun c _ => ⟨fun bounded => ?_, ?_⟩⟩
  · have room : (memory (header + 1)).toNat + 3 ≤ packetSizeMax - sender.tx.size := by
      by_contra short
      rw [sendPacketRefused (by omega)] at sent
      contradiction
    obtain ⟨-, -, queued, -⟩ := sendPacketQueues memory header valid room
    have bytes : packetBytes memory header =
        t :: memory (header + 1) :: load memory (header + 2) ((memory (header + 1)).toNat - 2) := by
      obtain ⟨n, size⟩ : ∃ n, (memory (header + 1)).toNat = n + 2 := ⟨_, (Nat.sub_add_cancel (by omega)).symm⟩
      rw [packetBytes, size, loadCons, loadCons, type]
      rfl
    rw [bytes] at queued ⊢
    have length : (load memory (header + 2) ((memory (header + 1)).toNat - 2)).length + 2 = (memory (header + 1)).toNat := by
      rw [loadLength]
      omega
    obtain ⟨m, call, stored⟩ := frameDeliveredAny stable fn found any granted callback (by omega) length
    refine ⟨_, queued, ⟨m, call, stored⟩, ?_⟩
    rintro ⟨m', call', same⟩
    obtain rfl : m = m' := by simpa using call.symm.trans call'
    have size : packetSizeAny = memory (header + 1) := (List.cons.inj (List.cons.inj (stored.symm.trans same)).2).1
    rw [← size] at high
    exact absurd high (by decide)
  · by_contra low
    exact wrappedUnbounded stable fn found any granted (Nat.not_le.mp low) bounded
  · exact boundedFromThree stable fn found any granted

/- An operation of any size of type 1, and a packet of its type. -/
def anySizeOp : PacketOperations Unit :=
  ⟨1, packetSizeAny, fun _ _ w => (some 100, w), some fun _ w => (.success, w)⟩

def anySizeMemory : Memory := fun a => [1, 4, 7, 0].getD a 0

theorem sizeByteLost :
    packetBytes anySizeMemory 0 = [1, 4, 7, 0] ∧
    waiting (sendPacket anySizeMemory (blankHandler Unit) 0).2 = frame [1, 4, 7, 0] ∧
    (calls (rxBytes direct (receiver (blankHandler _) [anySizeOp]) ⟨fun _ => 0, ()⟩ (frame [1, 4, 7, 0])).trace).map
      (fun call => load call.2.2 call.2.1 4) = [[1, 0xFF, 7, 0]] ∧
    ¬ BoundedWrites direct (receiver (blankHandler _) [anySizeOp]) ⟨fun _ => 0, ()⟩ 1 2 :=
  ⟨by decide, by decide, by decide, wrappedUnbounded stableDirect rfl (p := anySizeOp) (b := 100) rfl ⟨rfl, rfl⟩ rfl (by decide)⟩

theorem smallPacketReceived :
    (∃ sent, waiting (sendPacket anySizeMemory (blankHandler Unit) 0).2 = waiting (blankHandler Unit) ++ sent ∧
      ¬ ∃ m, calls (rxBytes direct (receiver (blankHandler _) [anySizeOp]) ⟨fun _ => 0, ()⟩ sent).trace = [(anySizeOp, 100, m)] ∧
        load m 100 4 = packetBytes anySizeMemory 0) ∧
    ∀ c : PacketSize, c ≠ packetSizeAny →
      (BoundedWrites direct (receiver (blankHandler _) [anySizeOp]) ⟨fun _ => 0, ()⟩ 1 c ↔ 3 ≤ c.toNat) := by
  obtain ⟨sentPackets, bounds⟩ := anySizeReceived direct stableDirect (receiver (blankHandler _) [anySizeOp]) ⟨fun _ => 0, ()⟩
    anySizeOp 1 100 rfl rfl ⟨rfl, rfl⟩ rfl fun _ => rfl
  obtain ⟨sent, queued, -, different⟩ := sentPackets (blankHandler Unit) anySizeMemory 0 (validEmpty (by decide)) rfl (by decide)
    (by decide) (by decide)
  exact ⟨⟨sent, queued, different⟩, bounds⟩

end OrazioLogger.PacketHandler
