import OrazioLogger.ClientReceiver

/-! Bytes of a frame changed on the way, behind its size byte: the checksum tells, unless the changes cancel out. -/
namespace OrazioLogger.PacketHandler
open ByteMemory

/-! The sum of the differences. -/

def differences (sent received : List UInt8) : List UInt8 := List.zipWith (· ^^^ ·) sent received

theorem xorSumFrom (start : UInt8) (bytes : List UInt8) : bytes.foldl (· ^^^ ·) start = start ^^^ xorSum bytes := by
  induction bytes generalizing start with
  | nil => simp [xorSum]
  | cons c rest ih =>
    calc rest.foldl (· ^^^ ·) (start ^^^ c)
        = start ^^^ c ^^^ xorSum rest := ih _
      _ = start ^^^ (0 ^^^ c ^^^ xorSum rest) := by rw [UInt8.zero_xor, UInt8.xor_assoc]
      _ = start ^^^ rest.foldl (· ^^^ ·) (0 ^^^ c) := by rw [ih]

theorem xorSumCons (c : UInt8) (bytes : List UInt8) : xorSum (c :: bytes) = c ^^^ xorSum bytes := by
  rw [xorSum, List.foldl_cons, xorSumFrom, UInt8.zero_xor]

theorem xorSumConcat (xs ys : List UInt8) : xorSum (xs ++ ys) = xorSum xs ^^^ xorSum ys := by
  rw [xorSum, List.foldl_append, xorSumFrom]
  rfl

theorem xorSumDifferences {sent received : List UInt8} (same : sent.length = received.length) :
    xorSum (differences sent received) = xorSum sent ^^^ xorSum received := by
  induction sent generalizing received with
  | nil =>
    rw [List.length_eq_zero_iff.mp same.symm]
    rfl
  | cons a sent ih =>
    cases received with
    | nil => contradiction
    | cons c received =>
      have rest : xorSum (differences sent received) = _ := ih (Nat.succ.inj same)
      change xorSum ((a ^^^ c) :: differences sent received) = _
      rw [xorSumCons, rest, xorSumCons, xorSumCons]
      ac_rfl

/- One changed byte is always seen. -/
theorem oneDifference {before after : List UInt8} {a c : UInt8} (changed : a ≠ c) :
    xorSum (differences (before ++ a :: after) (before ++ c :: after)) ≠ 0 := by
  rw [xorSumDifferences (by simp), xorSumConcat, xorSumConcat, xorSumCons, xorSumCons]
  intro zero
  have same := UInt8.xor_eq_zero_iff.mp zero
  rw [UInt8.xor_right_inj, UInt8.xor_left_inj] at same
  exact changed same

/- What follows the size byte of a frame. -/
def tailBytes (t : PacketType) (s : PacketSize) (rest : List UInt8) : List UInt8 := rest ++ [xorSum (t :: s :: rest)]

/- The differences cancel out exactly if the last byte received is the checksum of the others. -/
theorem cancelWhenChecksum {t : PacketType} {s : PacketSize} {rest payload : List UInt8} {c : UInt8}
    (same : payload.length = rest.length) :
    xorSum (differences (tailBytes t s rest) (payload ++ [c])) = 0 ↔ c = xorSum (t :: s :: payload) := by
  have total (bytes : List UInt8) : xorSum (tailBytes t s bytes) = t ^^^ s := by
    rw [tailBytes, xorSumAppend, xorSumCons, xorSumCons]
    calc xorSum bytes ^^^ (t ^^^ (s ^^^ xorSum bytes))
        = (t ^^^ s) ^^^ (xorSum bytes ^^^ xorSum bytes) := by ac_rfl
      _ = t ^^^ s := by rw [UInt8.xor_self, UInt8.xor_zero]
  rw [xorSumDifferences (by simp [tailBytes, same]), UInt8.xor_eq_zero_iff, total, ← total payload, tailBytes, xorSumAppend,
    xorSumAppend, UInt8.xor_right_inj]
  exact eq_comm

section Receiver
variable {P σ : Type} {ops : World σ → P → PacketOperations σ} {h : PacketHandler P} {w : World σ} {p : P} {t : PacketType}
  {s : PacketSize} {b : Addr}

/- A frame whose last byte is not the checksum of what arrived before it. -/
structure Rejected (r : RxRun P σ) : Prop where
  status : r.statuses.getLast? = some .checksumError
  silent : calls r.trace = []
  fn : r.handler.rxFn = .rxAA

theorem wrongChecksumRejected (stable : StableOps ops) {payload : List UInt8} {c : UInt8} (fn : h.rxFn = .rxAA)
    (found : h.entry t = some p) (named : Named ops w p t s)
    (granted : ((ops w p).initializeBufferFn t s w).1 = some b) (full : payload.length + 2 = s.toNat)
    (wrong : c ≠ xorSum (t :: s :: payload)) :
    Rejected (rxBytes ops h w (0xAA :: 0x55 :: t :: s :: (payload ++ [c]))) := by
  obtain ⟨arrived, -⟩ := bodyArrives stable fn found named granted full
  rw [show 0xAA :: 0x55 :: t :: s :: (payload ++ [c]) = (0xAA :: 0x55 :: t :: s :: payload) ++ [c] from rfl, rxBytesSnoc]
  generalize rxBytes ops h w (0xAA :: 0x55 :: t :: s :: payload) = r at arrived
  obtain ⟨quiet, last, filled⟩ := arrived
  have other : c ≠ r.handler.rxChecksum := by
    rw [filled.checksum]
    exact wrong
  have rejected : rxByte ops r.handler r.world c = _ := stepChecksumError last other
  simp only [rejected]
  exact ⟨List.getLast?_concat .., by rw [callsAppend, quiet.noCall]; rfl, rfl⟩

end Receiver

section Client
open OrazioClient

/- For the client the packets it has stored stay as they are. -/
theorem rejectedKeeps {cl : OrazioClient} {seen bytes : List UInt8} (receiving : Receiving cl seen)
    (silent : calls (rxBytes operation cl.packetHandler ⟨cl.memory, ()⟩ bytes).trace = []) {a : Addr} (outside : ¬ InBuffer a) :
    (rxBytes operation cl.packetHandler ⟨cl.memory, ()⟩ bytes).world.memory a = cl.memory a := by
  have decoded : decoding cl (onLine bytes) = rxBytes operation cl.packetHandler ⟨cl.memory, ()⟩ bytes := by
    rw [decoding, bytesReadOnLine]
  obtain ⟨later, -, -, follows, -, kept, -⟩ := readLoopSkips (onLine bytes) receiving (by rw [decoded]; exact silent) []
  rw [← decoded, ← follows.memory]
  exact kept a outside

end Client

/- `received` stands for the sequence number, the payload and the checksum of the frame of `t :: s :: rest`. -/
theorem corruptionDetected {P σ : Type} (ops : World σ → P → PacketOperations σ) (stable : StableOps ops)
    (h : PacketHandler P) (w : World σ) (p : P) (t : PacketType) (s : PacketSize) (b : Addr) (rest received : List UInt8)
    (fn : h.rxFn = .rxAA) (found : h.entry t = some p) (named : Named ops w p t s)
    (granted : ((ops w p).initializeBufferFn t s w).1 = some b) (callback : ∀ v, (ops v p).onReceiveFn.isSome)
    (full : rest.length + 2 = s.toNat) (same : received.length = rest.length + 1) :
    let changes := differences (tailBytes t s rest) received
    let sent := 0xAA :: 0x55 :: t :: s :: received
    let r := rxBytes ops h w sent
    ((∃ m, calls r.trace = [(p, b, m)] ∧ load m b s.toNat = t :: s :: received.dropLast) ↔ xorSum changes = 0) ∧
    (xorSum changes ≠ 0 → Rejected r ∧
      (∀ p' t' s' b' rest', r.handler.entry t' = some p' → Named ops r.world p' t' s' →
        ((ops r.world p').initializeBufferFn t' s' r.world).1 = some b' → rest'.length + 2 = s'.toNat →
        (∀ v, (ops v p').onReceiveFn.isSome) →
        Delivered (rxBytes ops r.handler r.world (frame (t' :: s' :: rest'))) p' b' (t' :: s' :: rest')) ∧
      ∀ (cl : OrazioClient) op a, OrazioClient.Receiving cl [] → cl.packetHandler.entry t = some op → op.size = s →
        ¬ OrazioClient.InBuffer a →
        (rxBytes OrazioClient.operation cl.packetHandler ⟨cl.memory, ()⟩ sent).world.memory a = cl.memory a) ∧
    ∀ before a c after, tailBytes t s rest = before ++ a :: after → received = before ++ c :: after → a ≠ c →
      xorSum changes ≠ 0 := by
  obtain ⟨payload, c, rfl⟩ : ∃ payload c, received = payload ++ [c] :=
    ⟨received.dropLast, received.getLast (by rintro rfl; contradiction), (List.dropLast_append_getLast _).symm⟩
  have length : payload.length = rest.length := by simpa using same
  have size : payload.length + 2 = s.toNat := by rw [length]; exact full
  have cancels := cancelWhenChecksum (t := t) (s := s) (c := c) length
  have rejected : c ≠ xorSum (t :: s :: payload) → Rejected (rxBytes ops h w (0xAA :: 0x55 :: t :: s :: (payload ++ [c]))) :=
    wrongChecksumRejected stable fn found named granted size
  refine ⟨⟨fun delivered => ?_, fun zero => ?_⟩, fun nonzero => ?_, ?_⟩
  · rw [cancels]
    by_contra wrong
    obtain ⟨m, call, -⟩ := delivered
    rw [(rejected wrong).silent] at call
    contradiction
  · have delivered : Delivered (rxBytes ops h w (frame (t :: s :: payload))) p b (t :: s :: payload) :=
      frameDelivered stable fn found named granted size (callback _)
    obtain ⟨m, call, stored⟩ := delivered.call
    have total : (t :: s :: payload).length = s.toNat := by
      rw [← size]
      rfl
    rw [cancels.mp zero, List.dropLast_concat, ← total]
    exact ⟨m, call, stored⟩
  · have wrong : c ≠ xorSum (t :: s :: payload) := fun right => nonzero (cancels.mpr right)
    have here := rejected wrong
    refine ⟨here, fun p' t' s' b' rest' found' named' granted' full' callback' =>
      frameDelivered stable here.fn found' named' granted' full' (callback' _), ?_⟩
    intro cl op a receiving foundOp sized outside
    refine rejectedKeeps receiving ?_ outside
    have type := ((receiving.table t op).mp foundOp).2
    have hunting : cl.packetHandler.rxFn = .rxAA := by cases receiving.reading with | hunting fn => exact fn
    exact (wrongChecksumRejected OrazioClient.stableOperation hunting foundOp ⟨type, sized, named.low, named.high⟩ rfl size
      wrong).silent
  · intro before a c' after sent got changed
    rw [sent, got]
    exact oneDifference changed

theorem changedByteRejected :
    let received : List UInt8 := [9, 0, 2]
    let r := rxBytes direct (receiver (blankHandler _) [fourByteOp]) ⟨fun _ => 0, ()⟩ (0xAA :: 0x55 :: 1 :: 4 :: received)
    xorSum (differences (tailBytes 1 4 [7, 0]) received) ≠ 0 ∧ Rejected r := by
  have checked := corruptionDetected direct stableDirect (receiver (blankHandler _) [fourByteOp]) ⟨fun _ => 0, ()⟩
    fourByteOp 1 4 100 [7, 0] [9, 0, 2] (receiverFn _ _) rfl ⟨rfl, rfl, by decide, by decide⟩ rfl (fun _ => rfl) rfl rfl
  exact ⟨by decide, (checked.2.1 (by decide)).1⟩

end OrazioLogger.PacketHandler
