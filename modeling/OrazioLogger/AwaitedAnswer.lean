import OrazioLogger.ClientCalls

/-! A blocking send and the answer it waits for: which packet makes
`OrazioClient_sendPacket` return success. -/
namespace OrazioLogger.OrazioClient
open ByteMemory OrazioPackets PacketHandler RingBuffer Outcome

/- A response as it is on the line, with what it says it answers. -/
structure Answers (body : List UInt8) (type : PacketType) (seq : PacketSeq) : Prop where
  response : body.getD 0 0 = responsePacketId
  type : body.getD 4 0 = type
  seq : (body.getD 5 0).toUInt16 ||| ((body.getD 6 0).toUInt16 <<< 8) = seq

/- The client keeps such a response. -/
structure Holds (cl : OrazioClient) (type : PacketType) (seq : PacketSeq) : Prop where
  type : cl.memory (response + 4) = type
  seq : load16 cl.memory (response + 5) = seq

/- The client with both mutexes, once `p` has been passed to `_sendPacket`. -/
def enqueued (cl : OrazioClient) (p : Addr) : OrazioClient :=
  (enqueuePacket { cl with writeMutex := true, readMutex := true } p).2

/- Between the flush of `p` and the return, a response to `p` was decoded. -/
def Answered (cl later : OrazioClient) (p : Addr) : Prop :=
  ∃ flushed taken, flushBuffer (enqueued cl p) = .ok flushed ∧ flushed.fd.reads = taken ++ later.fd.reads ∧
    ∃ body ∈ decodedPackets flushed taken, Answers body (cl.memory p) (cl.globalSeq + 1)

def WaitsForAnswer (cl : OrazioClient) (p : Addr) (timeout : Int) : Prop :=
  ∀ later, sendPacket cl p timeout = .ok (.success, later) → Answered cl later p

/- `_sendPacket` is reached and puts `p` in the transmit buffer. -/
structure Sends (cl : OrazioClient) (p : Addr) : Prop where
  writeFree : cl.writeMutex = false
  readFree : cl.readMutex = false
  known : (cl.memory p).toNat < packetTypeMax
  outbound : cl.packetSizes (cl.memory p) ≠ 0
  sized : cl.memory (p + 1) = cl.packetSizes (cl.memory p)
  room : ((cl.memory (p + 1)).toNat : Int) + 3 ≤ packetSizeMax - cl.packetHandler.tx.size

instance (cl : OrazioClient) (p : Addr) : Decidable (Sends cl p) :=
  decidable_of_iff (cl.writeMutex = false ∧ cl.readMutex = false ∧ (cl.memory p).toNat < packetTypeMax ∧
      cl.packetSizes (cl.memory p) ≠ 0 ∧ cl.memory (p + 1) = cl.packetSizes (cl.memory p) ∧
      ((cl.memory (p + 1)).toNat : Int) + 3 ≤ packetSizeMax - cl.packetHandler.tx.size)
    ⟨fun h => ⟨h.1, h.2.1, h.2.2.1, h.2.2.2.1, h.2.2.2.2.1, h.2.2.2.2.2⟩,
      fun h => ⟨h.1, h.2, h.3, h.4, h.5, h.6⟩⟩

/- The last response received, whenever that was, has the type of `p` and the number `p` will get. -/
def Stale (cl : OrazioClient) (p : Addr) : Prop := Holds cl (cl.memory p) (cl.globalSeq + 1)

instance (cl : OrazioClient) (p : Addr) : Decidable (Stale cl p) :=
  decidable_of_iff (cl.memory (response + 4) = cl.memory p ∧ load16 cl.memory (response + 5) = cl.globalSeq + 1)
    ⟨fun h => ⟨h.1, h.2⟩, fun h => ⟨h.1, h.2⟩⟩

theorem responseOp : ∀ op ∈ installedOps, op.type = responsePacketId →
    op.indexed = false ∧ op.dest = response ∧ op.size = sizeofResponsePacket := by decide

theorem otherOps : ∀ op ∈ installedOps, op.type ≠ responsePacketId → response + sizeofResponsePacket.toNat ≤ op.dest := by
  decide

section Answer
variable {cl later : OrazioClient} {seen : List UInt8} {p : Addr}

theorem responseOutside {i : Nat} (inside : i < sizeofResponsePacket.toNat) : ¬ InBuffer (response + i) := by
  intro here
  have low : packetBuffer ≤ response + i := here.1
  have small : response + i < packetBuffer := Nat.lt_of_lt_of_le (Nat.add_lt_add_left inside response) (by decide)
  exact absurd low (Nat.not_le_of_lt small)

/- Another packet leaves the response alone; a response is what the client holds then. -/
theorem receivedResponse {taken : List ReadOutcome} {op : ClientOp} {body : List UInt8}
    (got : Received cl later taken op body) {i : Nat} (inside : i < sizeofResponsePacket.toNat) :
    later.memory (response + i) = if op.type = responsePacketId then body.getD i 0 else cl.memory (response + i) := by
  rw [got.memory _ (responseOutside inside)]
  obtain ⟨rest, shape, size⟩ := got.shape
  by_cases answer : op.type = responsePacketId
  · obtain ⟨plain, dest, sized⟩ := responseOp op got.installed answer
    have start : destination op body = response := by simp [destination, plain, dest]
    have length : body.length = sizeofResponsePacket.toNat := by rw [shape, ← sized, ← size]; rfl
    rw [if_pos answer, copied, start, if_pos ⟨Nat.le_add_right _ _, by rw [length]; exact Nat.add_lt_add_left inside _⟩,
      Nat.add_sub_cancel_left]
  · have above : response + sizeofResponsePacket.toNat ≤ destination op body := by
      have dest := otherOps op got.installed answer
      unfold destination
      split
      · exact Nat.le_add_right_of_le dest
      · exact dest
    rw [if_neg answer, copied, if_neg fun here => ?_]
    exact absurd here.1 (Nat.not_le_of_lt (Nat.lt_of_lt_of_le (Nat.add_lt_add_left inside _) above))

theorem holdsCongr {type : PacketType} {seq : PacketSeq}
    (same : ∀ i, i < sizeofResponsePacket.toNat → later.memory (response + i) = cl.memory (response + i)) :
    Holds later type seq ↔ Holds cl type seq := by
  have four := same 4 (by decide)
  have word : load16 later.memory (response + 5) = load16 cl.memory (response + 5) := by
    rw [load16, load16, same 5 (by decide)]
    exact congrArg (fun c : UInt8 => _ ||| (c.toUInt16 <<< 8)) (same 6 (by decide))
  exact ⟨fun held => ⟨four.symm.trans held.type, word.symm.trans held.seq⟩,
    fun held => ⟨four.trans held.type, word.trans held.seq⟩⟩

theorem heldAfter {taken : List ReadOutcome} {op : ClientOp} {body : List UInt8} {type : PacketType} {seq : PacketSeq}
    (got : Received cl later taken op body) :
    Holds later type seq ↔ if op.type = responsePacketId then Answers body type seq else Holds cl type seq := by
  by_cases answer : op.type = responsePacketId
  · have four := receivedResponse got (i := 4) (by decide)
    have five := receivedResponse got (i := 5) (by decide)
    have six := receivedResponse got (i := 6) (by decide)
    obtain ⟨rest, shape, -⟩ := got.shape
    rw [if_pos answer] at four five six ⊢
    constructor
    · intro held
      refine ⟨by rw [shape]; exact answer, four.symm.trans held.type, ?_⟩
      rw [← five, ← six]
      exact held.seq
    · intro answers
      refine ⟨four.trans answers.type, ?_⟩
      rw [load16, five]
      exact (congrArg (fun c : UInt8 => _ ||| (c.toUInt16 <<< 8)) six).trans answers.seq
  · rw [if_neg answer]
    exact holdsCongr fun i inside => (receivedResponse got inside).trans (if_neg answer)

/- The loop ends well only with a response decoded in it, or one held from before. -/
theorem awaitResponseAnswered {type : PacketType} {seq : PacketSeq} (timeout : Nat) (receiving : Receiving cl seen)
    (returned : awaitResponse cl type seq timeout = .ok (.success, later)) :
    ∃ taken, cl.fd.reads = taken ++ later.fd.reads ∧
      (Holds cl type seq ∨ ∃ body ∈ decodedPackets cl taken, Answers body type seq) := by
  induction timeout generalizing cl seen with
  | zero => simp [awaitResponse] at returned
  | succ timeout ih =>
    unfold awaitResponse at returned
    cases reading : readPacket cl with
    | error => rw [bindError reading] at returned; contradiction
    | ok next =>
      rw [bindOk reading] at returned
      obtain ⟨taken, op, body, split, got⟩ := readLoopReceives receiving reading
      have known (held : Holds next type seq) : Holds cl type seq ∨ Answers body type seq := by
        have after := (heldAfter got).mp held
        split at after
        · exact Or.inr after
        · exact Or.inl after
      by_cases found : next.memory (response + 4) = type ∧ load16 next.memory (response + 5) = seq
      · rw [if_pos found] at returned
        cases returned
        refine ⟨taken, split, (known ⟨found.1, found.2⟩).imp id fun answers => ⟨body, ?_, answers⟩⟩
        rw [got.decoded]
        exact List.mem_singleton.mpr rfl
      · rw [if_neg found] at returned
        obtain ⟨more, rest, answered⟩ := ih got.receiving returned
        obtain ⟨-, -, decoded⟩ := decodingAppend more got.follows
        refine ⟨taken ++ more, by rw [split, rest, List.append_assoc], ?_⟩
        rw [decoded, got.decoded]
        rcases answered with held | ⟨answer, member, answers⟩
        · exact (known held).imp id fun answers => ⟨body, List.mem_append_left _ (List.mem_singleton.mpr rfl), answers⟩
        · exact Or.inr ⟨answer, List.mem_append_right _ member, answers⟩

/-! The call around the loop. -/

theorem sendPacketSuccess (m : Memory) (h : PacketHandler ClientOp) (p : Addr) :
    (PacketHandler.sendPacket m h p).1 = .success ↔ ((m (p + 1)).toNat : Int) + 3 ≤ packetSizeMax - h.tx.size := by
  unfold PacketHandler.sendPacket
  dsimp only
  split
  · exact ⟨by simp, by omega⟩
  · exact ⟨fun _ => by omega, fun _ => rfl⟩

/- `_sendPacket` past its three checks. -/
theorem enqueuePacketChecked (known : (cl.memory p).toNat < packetTypeMax) (outbound : cl.packetSizes (cl.memory p) ≠ 0)
    (sized : cl.memory (p + 1) = cl.packetSizes (cl.memory p)) :
    enqueuePacket cl p =
      let m := store16 cl.memory (p + 2) (cl.globalSeq + 1)
      let sent := PacketHandler.sendPacket m cl.packetHandler p
      (sent.1, { cl with globalSeq := cl.globalSeq + 1, memory := m, packetHandler := sent.2 }) := by
  simp only [enqueuePacket]
  rw [if_neg (Nat.not_le_of_lt known), if_neg outbound, if_neg (not_not_intro sized)]

theorem enqueuePacketSuccess : (enqueuePacket cl p).1 = .success ↔ (cl.memory p).toNat < packetTypeMax ∧
    cl.packetSizes (cl.memory p) ≠ 0 ∧ cl.memory (p + 1) = cl.packetSizes (cl.memory p) ∧
    ((cl.memory (p + 1)).toNat : Int) + 3 ≤ packetSizeMax - cl.packetHandler.tx.size := by
  have size : store16 cl.memory (p + 2) (cl.globalSeq + 1) (p + 1) = cl.memory (p + 1) :=
    (SameBelow.refl (p + 2) cl.memory).store16 (Nat.le_refl _) _ _ (Nat.lt_succ_self _)
  by_cases checks : (cl.memory p).toNat < packetTypeMax ∧ cl.packetSizes (cl.memory p) ≠ 0 ∧
      cl.memory (p + 1) = cl.packetSizes (cl.memory p)
  · obtain ⟨known, outbound, sized⟩ := checks
    rw [enqueuePacketChecked known outbound sized]
    dsimp only
    rw [sendPacketSuccess, size]
    exact ⟨fun room => ⟨known, outbound, sized, room⟩, fun h => h.2.2.2⟩
  · refine ⟨fun success => absurd success ?_, fun h => absurd ⟨h.1, h.2.1, h.2.2.1⟩ checks⟩
    simp only [enqueuePacket]
    split
    · simp
    · split
      · simp
      · split
        · simp
        · exact absurd ⟨Nat.lt_of_not_le (by assumption), by assumption, not_not.mp (by assumption)⟩ checks

/- Nothing but a packet that is sent can be answered with success. -/
theorem sendPacketRefuses {timeout : Int} (blocking : 0 < timeout) (refused : ¬ Sends cl p) :
    sendPacket cl p timeout ≠ .ok (.success, later) := by
  intro returned
  rw [sendPacket, if_neg (Int.ne_of_gt blocking)] at returned
  cases write : cl.writeMutex with
  | true => simp [lockWrite, write, bind, Except.bind] at returned
  | false =>
    rw [bindOk (lockWriteOk write)] at returned
    cases read : cl.readMutex with
    | true => simp [lockRead, read, bind, Except.bind] at returned
    | false =>
      rw [bindOk (@lockReadOk { cl with writeMutex := true } read)] at returned
      by_cases success : (enqueuePacket { cl with writeMutex := true, readMutex := true } p).1 = .success
      · obtain ⟨known, outbound, sized, room⟩ := enqueuePacketSuccess.mp success
        exact refused ⟨write, read, known, outbound, sized, room⟩
      · simp only [ne_eq, success, not_false_eq_true, if_true, Except.ok.injEq, Prod.mk.injEq] at returned
        exact absurd returned.1 (by simp)

theorem sendPacketBlocks {timeout : Int} (blocking : 0 < timeout) (sends : Sends cl p) :
    sendPacket cl p timeout = flushBuffer (enqueued cl p) >>= fun flushed =>
      awaitResponse flushed (flushed.memory p) (load16 flushed.memory (p + 2)) timeout.toNat >>= fun answer =>
        .ok (answer.1, unlockWrite (unlockRead answer.2)) := by
  have success : (enqueuePacket { cl with writeMutex := true, readMutex := true } p).1 = .success :=
    enqueuePacketSuccess.mpr ⟨sends.known, sends.outbound, sends.sized, sends.room⟩
  rw [sendPacket, if_neg (Int.ne_of_gt blocking), bindOk (lockWriteOk sends.writeFree),
    bindOk (@lockReadOk { cl with writeMutex := true } sends.readFree)]
  simp only [ne_eq, success, not_true_eq_false, if_false]
  rfl

theorem enqueuedSends (sends : Sends cl p) : enqueued cl p =
    let m := store16 cl.memory (p + 2) (cl.globalSeq + 1)
    { cl with
      writeMutex := true, readMutex := true, globalSeq := cl.globalSeq + 1, memory := m
      packetHandler := (PacketHandler.sendPacket m cl.packetHandler p).2 } :=
  congrArg Prod.snd (@enqueuePacketChecked { cl with writeMutex := true, readMutex := true } p
    sends.known sends.outbound sends.sized)

/- The client that waits: `p` carries its number, the response held is the one from before the call. -/
structure Waiting (cl flushed : OrazioClient) (p : Addr) : Prop where
  type : flushed.memory p = cl.memory p
  seq : load16 flushed.memory (p + 2) = cl.globalSeq + 1
  held : ∀ type seq, Holds flushed type seq ↔ Holds cl type seq
  reads : flushed.fd.reads = cl.fd.reads
  receiving : ∃ seen, Receiving flushed seen

theorem flushedWaiting {flushed : OrazioClient} (own : clientEnd ≤ p) (receiving : Receiving cl seen) (sends : Sends cl p)
    (flush : flushBuffer (enqueued cl p) = .ok flushed) : Waiting cl flushed p := by
  have locked : Receiving { cl with writeMutex := true, readMutex := true } seen := receiving.withMemory rfl (.refl _ _)
  have sent := enqueuePacketEnqueued p locked.ring
  have after : Receiving (enqueued cl p) seen := sent.receiving locked (foreignAbove own)
  have flushed' := flushLoopFlushed after.ring flush
  have memory : flushed.memory = store16 cl.memory (p + 2) (cl.globalSeq + 1) := by
    rw [flushed'.only]
    exact congrArg OrazioClient.memory (enqueuedSends sends)
  have below : SameBelow (p + 2) cl.memory flushed.memory := by
    rw [memory]
    exact (SameBelow.refl _ _).store16 (Nat.le_refl _) _
  have inClient {i : Nat} (inside : i < sizeofResponsePacket.toNat) : response + i < p + 2 := by
    have first : response + i < clientEnd := Nat.lt_of_lt_of_le (Nat.add_lt_add_left inside response) (by decide)
    exact Nat.lt_of_lt_of_le first (Nat.le_add_right_of_le own)
  refine ⟨below p (Nat.lt_add_of_pos_right (by decide)), by rw [memory, load16Store16], fun type seq => ?_, ?_, seen, flushed'.receiving after⟩
  · exact holdsCongr fun i inside => below _ (inClient inside)
  · rw [flushed'.only]
    exact congrArg (fun c => c.fd.reads) sent.only

/- A response held from before is the only way around an answer. -/
theorem freshWaits {timeout : Int} (blocking : 0 < timeout) (own : clientEnd ≤ p) (receiving : Receiving cl seen)
    (fresh : ¬ Stale cl p) : WaitsForAnswer cl p timeout := by
  intro later returned
  by_cases sends : Sends cl p
  · rw [sendPacketBlocks blocking sends] at returned
    cases flush : flushBuffer (enqueued cl p) with
    | error => rw [bindError flush] at returned; contradiction
    | ok flushed =>
      rw [bindOk flush] at returned
      have waiting := flushedWaiting own receiving sends flush
      cases await : awaitResponse flushed (flushed.memory p) (load16 flushed.memory (p + 2)) timeout.toNat with
      | error => rw [bindError await] at returned; contradiction
      | ok answer =>
        rw [bindOk await] at returned
        obtain ⟨status, read⟩ := answer
        cases returned
        obtain ⟨_, inFrame⟩ := waiting.receiving
        rw [waiting.type, waiting.seq] at await
        obtain ⟨taken, split, found⟩ := awaitResponseAnswered _ inFrame await
        refine ⟨flushed, taken, flush, split, found.resolve_left fun held => fresh ((waiting.held _ _).mp held)⟩
  · exact absurd returned (sendPacketRefuses blocking sends)

/- From anywhere in a frame, some bytes lose it. -/
theorem lostFrame (receiving : Receiving cl seen) : ∃ bytes, calls (decoding cl (onLine bytes)).trace = [] ∧
    (decoding cl (onLine bytes)).handler.rxFn = .rxAA := by
  have wrong (c : UInt8) : c + 1 ≠ c := by simp
  simp only [decoding, bytesReadOnLine]
  cases receiving.reading with
  | hunting fn => exact ⟨[], rfl, fn⟩
  | preamble fn =>
    refine ⟨[0], ?_⟩
    simp only [PacketHandler.rxBytes, stepHalfPreamble fn (show (0 : UInt8) ≠ 0x55 by decide)]
    exact ⟨rfl, trivial⟩
  | synced fn =>
    have unknown : cl.packetHandler.entry 0xFF = none := rfl
    obtain ⟨status, k, step, -, hunting⟩ := stepUnknownType operation ⟨cl.memory, ()⟩ fn unknown
    refine ⟨[0xFF], ?_⟩
    simp only [PacketHandler.rxBytes, step]
    exact ⟨rfl, hunting⟩
  | @typed p t s fn current found named checksum =>
    refine ⟨[s + 1], ?_⟩
    simp only [PacketHandler.rxBytes, stepWrongSize fn current named (wrong s).symm]
    exact ⟨rfl, trivial⟩
  | @payload p t s b rest fn found named filling left more =>
    let missing : List UInt8 := List.replicate cl.packetHandler.rxBytesToRead.toNat 0
    obtain ⟨quiet, after, -, -⟩ := fillRest stableOperation rest missing receiving.reading filling
      (by simp only [missing, List.length_replicate]; omega)
    obtain ⟨r, made⟩ : ∃ r, PacketHandler.rxBytes operation cl.packetHandler ⟨cl.memory, ()⟩ missing = r := ⟨_, rfl⟩
    rw [made] at quiet after
    have atChecksum : r.handler.rxFn = .rxChecksum := by
      cases after with
      | complete atChecksum => exact atChecksum
      | payload _ _ _ _ short some =>
        simp only [missing, List.length_append, List.length_replicate] at short
        omega
    refine ⟨missing ++ [r.handler.rxChecksum + 1], ?_⟩
    rw [rxBytesSnoc, made]
    simp only [stepChecksumError atChecksum (wrong r.handler.rxChecksum), callsAppend, quiet.noCall]
    exact ⟨rfl, rfl⟩
  | complete fn =>
    refine ⟨[cl.packetHandler.rxChecksum + 1], ?_⟩
    simp only [PacketHandler.rxBytes, stepChecksumError fn (wrong cl.packetHandler.rxChecksum)]
    exact ⟨rfl, rfl⟩

theorem flushLoopReads (cl : OrazioClient) (reads : List ReadOutcome) (writes : List Int) {later : OrazioClient}
    (returned : flushLoop cl writes = .ok later) :
    flushLoop { cl with fd := { cl.fd with reads := reads } } writes =
      .ok { later with fd := { later.fd with reads := reads } } := by
  induction writes generalizing cl with
  | nil =>
    unfold flushLoop at returned ⊢
    split at returned
    · cases returned
      rw [if_pos (by assumption)]
    · contradiction
  | cons res rest ih =>
    unfold flushLoop at returned ⊢
    split at returned
    · cases returned
      rw [if_pos (by assumption)]
    · rw [if_neg (by assumption)]
      exact ih _ returned

/- Wherever the receiver is, some bytes make this packet the next one read. -/
theorem packetRead (receiving : Receiving cl seen) {op : ClientOp} {rest : List UInt8} (installed : op ∈ installedOps)
    (size : rest.length + 2 = op.size.toNat) : ∃ reads read,
    readPacket { cl with fd := { cl.fd with reads := reads } } = .ok read ∧ read.fd.reads = [] ∧
    decodedPackets cl reads = [op.type :: op.size :: rest] ∧ ∀ type seq, Holds read type seq ↔
      if op.type = responsePacketId then Answers (op.type :: op.size :: rest) type seq else Holds cl type seq := by
  obtain ⟨bytes, noCall, hunting⟩ := lostFrame receiving
  let packet : List UInt8 := op.type :: op.size :: rest
  let reads := onLine bytes ++ onLine (frame packet)
  let ready : OrazioClient := { cl with fd := { cl.fd with reads := reads } }
  have readyReceiving : Receiving ready seen := receiving.withMemory rfl (.refl _ _)
  obtain ⟨skipped, next, goes, follows, -, kept, after⟩ := readLoopSkips (onLine bytes) readyReceiving noCall
    (onLine (frame packet) ++ [])
  obtain ⟨read, returned, empty, got, -⟩ := frameRead after (by rw [follows.handler]; exact hunting) installed size []
  refine ⟨reads, read, ?_, empty, ?_, fun type seq => ?_⟩
  · have split : reads = onLine bytes ++ (onLine (frame packet) ++ []) := by rw [List.append_nil]
    change readLoop ready reads = .ok read
    rw [split, goes]
    exact returned
  · obtain ⟨-, -, decoded⟩ := decodingAppend (onLine (frame packet)) follows
    have silent : decodedPackets ready (onLine bytes) = [] := congrArg (List.map _) noCall
    have last : decodedPackets skipped (onLine (frame packet)) = [packet] := got.decoded
    rw [silent, last] at decoded
    exact decoded
  · have before : Holds skipped type seq ↔ Holds cl type seq := holdsCongr fun i inside => kept _ (responseOutside inside)
    rw [heldAfter got, before]

theorem sendsOnAnyLine (line : Serial) : Sends { cl with fd := line } p ↔ Sends cl p :=
  ⟨fun sends => ⟨sends.writeFree, sends.readFree, sends.known, sends.outbound, sends.sized, sends.room⟩,
    fun sends => ⟨sends.writeFree, sends.readFree, sends.known, sends.outbound, sends.sized, sends.room⟩⟩

/- The call has returned with this packet: it is the last one decoded. -/
def ReturnedBy (cl later : OrazioClient) (p : Addr) (body : List UInt8) : Prop :=
  ∃ flushed taken before, flushBuffer (enqueued cl p) = .ok flushed ∧ flushed.fd.reads = taken ++ later.fd.reads ∧
    decodedPackets flushed taken = before ++ [body]

/- A packet that leaves an answer to `p` with the client ends the call, as the first and only one read. -/
theorem firstPacketReturns {timeout : Int} (blocking : 0 < timeout) (own : clientEnd ≤ p) (receiving : Receiving cl seen)
    (sends : Sends cl p) {op : ClientOp} {rest : List UInt8} (installed : op ∈ installedOps)
    (size : rest.length + 2 = op.size.toNat)
    (passes : if op.type = responsePacketId then Answers (op.type :: op.size :: rest) (cl.memory p) (cl.globalSeq + 1)
      else Stale cl p) :
    ∃ line later flushed, sendPacket { cl with fd := line } p timeout = .ok (.success, later) ∧
      flushBuffer (enqueued { cl with fd := line } p) = .ok flushed ∧ later.fd.reads = [] ∧
      decodedPackets flushed flushed.fd.reads = [op.type :: op.size :: rest] := by
  let dumb : OrazioClient := { cl with fd := ⟨[], List.replicate 254 1, []⟩ }
  have dumbReceiving : Receiving dumb seen := receiving.withMemory rfl (.refl _ _)
  have dumbSends : Sends dumb p := (sendsOnAnyLine _).mpr sends
  have locked : Receiving { dumb with writeMutex := true, readMutex := true } seen :=
    dumbReceiving.withMemory rfl (.refl _ _)
  have sent := enqueuePacketEnqueued p locked.ring
  have writes : (enqueued dumb p).fd.writes = List.replicate 254 1 := congrArg (fun c => c.fd.writes) sent.only
  have enough : (enqueued dumb p).packetHandler.tx.size ≤ (enqueued dumb p).fd.writes.length := by
    rw [writes, List.length_replicate]
    exact sent.ring.sizeHigh
  obtain ⟨flushed, flush, -⟩ := flushLoopReturns sent.ring enough
  have waiting := flushedWaiting own dumbReceiving dumbSends flush
  obtain ⟨_, inFrame⟩ := waiting.receiving
  obtain ⟨reads, read, reading, empty, decoded, held⟩ := packetRead inFrame installed size
  let line : Serial := ⟨reads, List.replicate 254 1, []⟩
  let ready : OrazioClient := { flushed with fd := { flushed.fd with reads := reads } }
  have noisySends : Sends { cl with fd := line } p := (sendsOnAnyLine _).mpr sends
  have noisy : flushBuffer (enqueued { cl with fd := line } p) = .ok ready := by
    have flush' := flushLoopReads (enqueued dumb p) reads _ flush
    rw [enqueuedSends dumbSends] at flush'
    rw [enqueuedSends noisySends]
    exact flush'
  have answer : Holds read (cl.memory p) (cl.globalSeq + 1) := by
    rw [held]
    split
    · rename_i response
      rwa [if_pos response] at passes
    · rename_i other
      rw [if_neg other] at passes
      exact (waiting.held _ _).mpr ⟨passes.type, passes.seq⟩
  obtain ⟨turns, more⟩ : ∃ turns, timeout.toNat = turns + 1 := ⟨timeout.toNat - 1, by omega⟩
  have returned : sendPacket { cl with fd := line } p timeout = .ok (.success, unlockWrite (unlockRead read)) := by
    have type : ready.memory p = cl.memory p := waiting.type
    have seq : load16 ready.memory (p + 2) = cl.globalSeq + 1 := waiting.seq
    rw [sendPacketBlocks blocking noisySends, bindOk noisy, type, seq, more, awaitResponse, bindOk reading,
      if_pos ⟨answer.type, answer.seq⟩]
    rfl
  exact ⟨line, _, ready, returned, noisy, empty, decoded⟩

/- With a stale response held, the first packet to come passes for the answer. -/
theorem staleReturns {timeout : Int} (blocking : 0 < timeout) (own : clientEnd ≤ p) (receiving : Receiving cl seen)
    (sends : Sends cl p) (stale : Stale cl p) :
    ∃ line : Serial, ¬ WaitsForAnswer { cl with fd := line } p timeout := by
  have endEpochInstalled : endEpochOp ∈ installedOps := by decide
  have endEpochSize : [(0 : UInt8), 0].length + 2 = endEpochOp.size.toNat := by decide
  have other : ¬ endEpochOp.type = responsePacketId := by decide
  obtain ⟨line, later, ready, returned, noisy, empty, decoded⟩ := firstPacketReturns blocking own receiving sends
    endEpochInstalled endEpochSize (by rwa [if_neg other])
  refine ⟨line, fun waits => ?_⟩
  obtain ⟨flushed, taken, flush, split, body, member, answers⟩ := waits _ returned
  obtain rfl : ready = flushed := Except.ok.inj (noisy.symm.trans flush)
  rw [empty, List.append_nil] at split
  rw [split] at decoded
  rw [decoded] at member
  rw [List.mem_singleton.mp member] at answers
  exact other answers.response

/- A response to `p`, read first, ends the call. -/
theorem answerReturns {timeout : Int} (blocking : 0 < timeout) (own : clientEnd ≤ p) (receiving : Receiving cl seen)
    (sends : Sends cl p) {body : List UInt8} (shape : ∃ rest, body = responsePacketId :: sizeofResponsePacket :: rest)
    (size : body.length = sizeofResponsePacket.toNat) (answers : Answers body (cl.memory p) (cl.globalSeq + 1)) :
    ∃ line later, sendPacket { cl with fd := line } p timeout = .ok (.success, later) ∧
      ReturnedBy { cl with fd := line } later p body := by
  obtain ⟨rest, rfl⟩ := shape
  have responseInstalled : (⟨responsePacketId, sizeofResponsePacket, false, response⟩ : ClientOp) ∈ installedOps := by decide
  obtain ⟨line, later, flushed, returned, flush, empty, decoded⟩ := firstPacketReturns blocking own receiving sends
    responseInstalled size (by rwa [if_pos rfl])
  exact ⟨line, later, returned, flushed, flushed.fd.reads, [], flush, by rw [empty, List.append_nil], decoded⟩

end Answer

/- For a client reached by any calls of any caller, whatever the line does: success is an answer to
this very call exactly when the response kept from before is not for the number `p` is about to get. -/
theorem successIsAnswer (blank : PacketHandler ClientOp) (memory : Memory) (fd : Serial) (calls : List Call)
    (foreign : ∀ c ∈ calls, Foreign c) (cl : OrazioClient) (reached : perform (init blank memory fd) calls = .ok cl)
    (p : Addr) (own : clientEnd ≤ p) (timeout : Int) (blocking : 0 < timeout) :
    (∀ line : Serial, WaitsForAnswer { cl with fd := line } p timeout) ↔ (Sends cl p → ¬ Stale cl p) := by
  obtain ⟨seen, receiving⟩ := (performSound foreign (initSound blank memory fd)).returned reached
  constructor
  · intro waits sends stale
    obtain ⟨line, fails⟩ := staleReturns blocking own receiving sends stale
    exact fails (waits line)
  · intro fresh line
    by_cases sends : Sends cl p
    · exact freshWaits blocking own (receiving.withMemory rfl (.refl _ _))
        fun stale => fresh sends ⟨stale.type, stale.seq⟩
    · exact fun later returned => absurd returned (sendPacketRefuses blocking fun here => sends ((sendsOnAnyLine line).mp here))

/- A caller's parameter request at address 1000. -/
def request : List Call := [.fill 1000 paramControlPacketId, .fill 1001 sizeofParamControlPacket]

theorem firstRequestWaits : ∃ cl, perform freshClient request = .ok cl ∧ Sends cl 1000 ∧
    ∀ line : Serial, WaitsForAnswer { cl with fd := line } 1000 1 := by
  let memory := store (store freshClient.memory 1000 paramControlPacketId) 1001 sizeofParamControlPacket
  have reached : perform freshClient request = .ok { freshClient with memory := memory } := by rfl
  refine ⟨_, reached, by decide +kernel, ?_⟩
  exact (successIsAnswer _ _ _ request (by decide) _ reached 1000 (by decide) 1 (by decide)).mpr fun _ => by decide +kernel

/- The line still holds an answer to the first request of an earlier session, and the next epoch. -/
def leftover : Serial :=
  ⟨onLine (frame [responsePacketId, sizeofResponsePacket, 0, 0, paramControlPacketId, 1, 0, 0] ++
    frame [endEpochPacketId, sizeofEndEpochPacket, 1, 0]), [], []⟩

theorem leftoverAccepted :
    ∃ cl, perform (init (blankHandler ClientOp) (fun _ => 0) leftover) (request ++ [.sync 1]) = .ok cl ∧
      ∃ line : Serial, ¬ WaitsForAnswer { cl with fd := line } 1000 1 := by
  have facts : (match perform (init (blankHandler ClientOp) (fun _ => 0) leftover) (request ++ [.sync 1]) with
      | .ok cl => decide (Sends cl 1000 ∧ Stale cl 1000)
      | .error _ => false) = true := by decide +kernel
  have foreign : ∀ c ∈ request ++ [.sync 1], Foreign c := by decide
  have sound := performSound foreign (initSound (blankHandler ClientOp) (fun _ => 0) leftover)
  cases reached : perform (init (blankHandler ClientOp) (fun _ => 0) leftover) (request ++ [.sync 1]) with
  | error => rw [reached] at facts; contradiction
  | ok cl =>
    rw [reached] at facts
    obtain ⟨sends, stale⟩ := of_decide_eq_true facts
    obtain ⟨_, receiving⟩ := sound.returned reached
    exact ⟨cl, rfl, staleReturns (by decide) (by decide) receiving sends stale⟩

end OrazioLogger.OrazioClient
