import OrazioLogger.FrameDelivery
import OrazioLogger.Installation
import OrazioLogger.OrazioClient
import OrazioLogger.Support.Outcome

/-! What a byte of the robot does to the client: nothing but in its packet buffer,
or it completes a packet, which is copied to its place. -/
namespace OrazioLogger.OrazioClient
open ByteMemory OrazioPackets PacketHandler RingBuffer

/- Where a packet is copied to: behind the earlier entries of its array when it is indexed. -/
def destination (op : ClientOp) (body : List UInt8) : Addr :=
  if op.indexed then op.dest + body.length * (body.getD 4 0).toNat else op.dest

def copied (op : ClientOp) (body : List UInt8) (m : Memory) : Memory := fun a =>
  if Inside (destination op body) body.length a then body.getD (a - destination op body) 0 else m a

/- The packet buffer, whatever size the packet in it has. -/
def InBuffer (a : Addr) : Prop := Inside packetBuffer packetSizeMax.toNat a

instance (a : Addr) : Decidable (InBuffer a) := by unfold InBuffer; infer_instance

/- A client between two bytes: `seen` is what it has of the frame it is in. -/
structure Receiving (cl : OrazioClient) (seen : List UInt8) : Prop where
  table : ∀ t op, cl.packetHandler.entry t = some op ↔ op ∈ installedOps ∧ op.type = t
  reading : Reading operation ⟨cl.memory, ()⟩ cl.packetHandler seen
  buffer : 4 ≤ seen.length → cl.packetHandler.rxCurrentPacket = some packetBuffer
  ring : Valid packetSizeMax cl.packetHandler.tx

theorem stableOperation : StableOps operation where
  memory _ _ := ⟨fun _ => rfl, fun _ => rfl⟩
  buffer _ _ _ _ := ⟨fun _ => rfl, fun _ => rfl⟩
  receive _ _ _ _ _ := ⟨fun _ => rfl, fun _ => rfl⟩

theorem installedSizes : ∀ op ∈ installedOps, 4 ≤ op.size.toNat ∧ op.size.toNat ≤ 254 := by decide

theorem indexedSizes : ∀ op ∈ installedOps, op.indexed = true → 5 ≤ op.size.toNat := by decide

def endEpochOp : ClientOp := ⟨endEpochPacketId, sizeofEndEpochPacket, false, endEpoch⟩

section Bytes
variable {cl : OrazioClient} {seen : List UInt8}

theorem Receiving.fixed (receiving : Receiving cl seen) : FixedSizes operation ⟨cl.memory, ()⟩ cl.packetHandler := by
  intro t op found
  obtain ⟨member, type⟩ := (receiving.table t op).mp found
  exact ⟨op.size, type, rfl, (installedSizes op member).1, (installedSizes op member).2⟩

theorem Receiving.named (receiving : Receiving cl seen) {t s : UInt8} {op : ClientOp}
    (found : cl.packetHandler.entry t = some op) (named : Named operation ⟨cl.memory, ()⟩ op t s) :
    op ∈ installedOps ∧ t = op.type ∧ s = op.size :=
  ⟨((receiving.table t op).mp found).1, named.type.symm, named.size.symm⟩

/- The client's own handler keeps its table and its transmit ring whatever byte it gets. -/
theorem Receiving.received (receiving : Receiving cl seen) {k : PacketHandler ClientOp} {m : Memory} {next : List UInt8}
    (only : ReceiveOnly cl.packetHandler k) (reading : Reading operation ⟨m, ()⟩ k next)
    (buffer : 4 ≤ next.length → k.rxCurrentPacket = some packetBuffer) :
    Receiving { cl with packetHandler := k, memory := m } next :=
  ⟨fun t op => by rw [only.entry]; exact receiving.table t op, reading, buffer, by rw [only.tx]; exact receiving.ring⟩

theorem loadGetD (m : Memory) (a : Addr) {n i : Nat} (below : i < n) : (load m a n).getD i 0 = m (a + i) := by
  simp [load, List.getD, below]

theorem callbackCopies {op : ClientOp} (installed : op ∈ installedOps) {b : Addr} {body : List UInt8} {w : World Unit}
    (length : body.length = op.size.toNat) (stored : load w.memory b body.length = body)
    (sized : w.memory (b + 1) = op.size) {f : Addr → World Unit → PacketStatus × World Unit}
    (callback : (operation w op).onReceiveFn = some f) : (f b w).2 = ⟨copied op body w.memory, ()⟩ := by
  have bytes (i : Nat) (below : i < body.length) : w.memory (b + i) = body.getD i 0 := by
    rw [← stored, loadGetD]
    simpa using below
  have copies (dest : Addr) (here : destination op body = dest) :
      memcpy w.memory dest b op.size.toNat = copied op body w.memory := by
    funext a
    rw [memcpy, copied, here, ← length]
    by_cases inside : Inside dest body.length a
    · have below : a - dest < body.length := Nat.sub_lt_left_of_lt_add inside.1 inside.2
      rw [if_pos inside, ← bytes _ below]
      exact if_pos inside
    · rw [if_neg inside]
      exact if_neg inside
  obtain rfl := Option.some.inj callback
  by_cases indexed : op.indexed = true
  · have index := bytes 4 (by rw [length]; exact indexedSizes op installed indexed)
    simp only [indexed, if_true, copyToIndexedBuffer, sized, index]
    exact congrArg (World.mk · ()) (copies _ (by rw [destination, if_pos indexed, length]))
  · simp only [indexed, Bool.false_eq_true, if_false, copyToBuffer, sized]
    exact congrArg (World.mk · ()) (copies _ (by rw [destination, if_neg indexed]))

/- What a byte does, with the packet it completes. -/
inductive Turn (cl : OrazioClient) (seen : List UInt8) (c : UInt8) (next : List UInt8) : Prop where
  | quiet (status : (rxByte cl c).1 ≠ .syncChecksum)
      (noCall : calls (PacketHandler.rxByte operation cl.packetHandler ⟨cl.memory, ()⟩ c).trace = [])
      (memory : ∀ a, ¬ InBuffer a → (rxByte cl c).2.memory a = cl.memory a)
      (receiving : Receiving (rxByte cl c).2 next)
  | packet {op rest} (installed : op ∈ installedOps) (size : rest.length + 2 = op.size.toNat)
      (status : (rxByte cl c).1 = .syncChecksum)
      (stored : load cl.memory packetBuffer op.size.toNat = op.type :: op.size :: rest)
      (call : calls (PacketHandler.rxByte operation cl.packetHandler ⟨cl.memory, ()⟩ c).trace =
        [(op, packetBuffer, cl.memory)])
      (memory : (rxByte cl c).2.memory = copied op (op.type :: op.size :: rest) cl.memory)
      (done : next = []) (receiving : Receiving (rxByte cl c).2 [])

/- A receiver at its checksum byte has a whole packet in the buffer. -/
theorem turnComplete (receiving : Receiving cl seen) (fn : cl.packetHandler.rxFn = .rxChecksum) :
    Turn cl seen cl.packetHandler.rxChecksum [] := by
  have only := rxByteReceiveOnly operation cl.packetHandler ⟨cl.memory, ()⟩ cl.packetHandler.rxChecksum
  have inBuffer := receiving.buffer
  cases receiving.reading with
  | hunting other => simp [fn] at other
  | preamble other => simp [fn] at other
  | synced other => simp [fn] at other
  | typed other => simp [fn] at other
  | payload other => simp [fn] at other
  | @complete op t s b rest _ found named filling full =>
    obtain ⟨installed, rfl, rfl⟩ := receiving.named found named
    obtain rfl : packetBuffer = b := Option.some.inj ((inBuffer (by simp)).symm.trans filling.packet)
    have size : rest.length + 2 = op.size.toNat := full
    have stored : load cl.memory packetBuffer (op.type :: op.size :: rest).length = op.type :: op.size :: rest :=
      filling.stored
    have sized : cl.memory (packetBuffer + 1) = op.size := by
      rw [List.length_cons, List.length_cons, loadCons, loadCons] at stored
      exact (List.cons.inj (List.cons.inj stored).2).1
    have callback : (operation ⟨cl.memory, ()⟩ op).onReceiveFn = some _ := rfl
    have step := stepDelivered fn filling.current filling.packet callback
    have world := (congrArg RxResult.world step).trans
      (callbackCopies installed (by simpa using size) stored sized callback)
    refine .packet installed size (congrArg RxResult.status step) ?_ (congrArg (fun r => calls r.trace) step)
      (congrArg World.memory world) rfl ?_
    · rw [← size]
      exact stored
    · exact receiving.received only (.hunting (congrArg (fun r => r.handler.rxFn) step)) (by simp)

theorem turn (receiving : Receiving cl seen) (c : UInt8) : ∃ next, Turn cl seen c next := by
  by_cases completes : cl.packetHandler.rxFn = .rxChecksum ∧ c = cl.packetHandler.rxChecksum
  · obtain ⟨fn, rfl⟩ := completes
    exact ⟨[], turnComplete receiving fn⟩
  · have status := incompleteStatus operation cl.packetHandler ⟨cl.memory, ()⟩ completes
    have only := rxByteReceiveOnly operation cl.packetHandler ⟨cl.memory, ()⟩ c
    obtain ⟨next, step⟩ := advance stableOperation receiving.fixed receiving.reading c
    have after := step.reading
    have quiet (noCall : calls (PacketHandler.rxByte operation cl.packetHandler ⟨cl.memory, ()⟩ c).trace = [])
        (memory : ∀ a, ¬ InBuffer a → (rxByte cl c).2.memory a = cl.memory a)
        (buffer : 4 ≤ next.length → (rxByte cl c).2.packetHandler.rxCurrentPacket = some packetBuffer) :
        Turn cl seen c next := .quiet status noCall memory (receiving.received only after buffer)
    refine ⟨next, ?_⟩
    unfold rxByte at quiet
    generalize PacketHandler.rxByte operation cl.packetHandler ⟨cl.memory, ()⟩ c = r at step quiet
    cases step with
    | lost _ _ world trace => exact quiet (by rw [trace]; rfl) (fun a _ => by simp only [world]) (by simp)
    | gained early => exact quiet rfl (fun _ _ => rfl) (by simp only [List.length_append, List.length_singleton]; omega)
    | refused _ _ full => simp [operation, initializeBuffer] at full
    | @granted op t s b k v named found buffer world filling reading =>
      obtain rfl : packetBuffer = b := Option.some.inj buffer
      have high := named.high
      refine quiet rfl (fun a outside => ?_) fun _ => filling.packet
      subst world
      have inside : InBuffer packetBuffer ∧ InBuffer (packetBuffer + 1) := by decide
      have first : a ≠ packetBuffer := fun same => outside (same ▸ inside.1)
      have second : a ≠ packetBuffer + 1 := fun same => outside (same ▸ inside.2)
      exact (storeOther _ second).trans (storeOther _ first)
    | @stored op t s b rest c status k v named found before room positive world filling reading =>
      obtain rfl : packetBuffer = b := Option.some.inj ((receiving.buffer (by simp)).symm.trans before.packet)
      have high := named.high
      refine quiet rfl (fun a outside => ?_) fun _ => filling.packet
      subst world
      have inside : InBuffer (packetBuffer + (rest.length + 2)) :=
        ⟨Nat.le_add_right _ _, Nat.add_lt_add_left (by change _ < 254; omega) _⟩
      exact storeOther _ fun same => outside (same ▸ inside)
    | @delivered op t s b rest f named found filling full installed =>
      cases receiving.reading with
      | payload _ _ _ _ left more => omega
      | complete fn => exact absurd ⟨fn, filling.checksum.symm⟩ completes
    | silent _ _ _ _ missing => simp [operation] at missing

end Bytes

/-! Whole packets, over the outcomes of `read`. -/

def bytesRead (outcomes : List ReadOutcome) : List UInt8 :=
  outcomes.filterMap fun outcome => if outcome.n ≠ 0 then some outcome.c else none

def decoding (cl : OrazioClient) (outcomes : List ReadOutcome) : RxRun ClientOp Unit :=
  PacketHandler.rxBytes operation cl.packetHandler ⟨cl.memory, ()⟩ (bytesRead outcomes)

/- The packets these outcomes complete, as they stand in the packet buffer. -/
def decodedPackets (cl : OrazioClient) (outcomes : List ReadOutcome) : List (List UInt8) :=
  (calls (decoding cl outcomes).trace).map fun call => load call.2.2 call.2.1 call.1.size.toNat

/- Reading has changed nothing but the receive side, the memory and what is still to be read. -/
structure ReadOnly (cl later : OrazioClient) : Prop where
  same : later = { cl with
    packetHandler := later.packetHandler, memory := later.memory, rxBytes := later.rxBytes
    fd := { cl.fd with reads := later.fd.reads } }

theorem ReadOnly.trans {a b c : OrazioClient} (first : ReadOnly a b) (second : ReadOnly b c) : ReadOnly a c := by
  refine ⟨?_⟩
  rw [second.same, first.same]

/- `later` is `cl` after these outcomes, as far as its receiver goes. -/
structure Follows (cl later : OrazioClient) (taken : List ReadOutcome) : Prop where
  only : ReadOnly cl later
  handler : later.packetHandler = (decoding cl taken).handler
  memory : later.memory = (decoding cl taken).world.memory

section Packets
variable {cl : OrazioClient} {seen : List UInt8}

theorem decodingCons (cl next : OrazioClient) (outcome : ReadOutcome) (taken : List ReadOutcome) (some : outcome.n ≠ 0)
    (handler : next.packetHandler = (rxByte cl outcome.c).2.packetHandler)
    (memory : next.memory = (rxByte cl outcome.c).2.memory) :
    (decoding cl (outcome :: taken)).handler = (decoding next taken).handler ∧
    (decoding cl (outcome :: taken)).world = (decoding next taken).world ∧
    calls (decoding cl (outcome :: taken)).trace =
      calls (PacketHandler.rxByte operation cl.packetHandler ⟨cl.memory, ()⟩ outcome.c).trace ++
        calls (decoding next taken).trace := by
  have read : bytesRead (outcome :: taken) = outcome.c :: bytesRead taken :=
    List.filterMap_cons_some (if_pos some)
  rw [decoding, decoding, read, handler, memory]
  exact ⟨rfl, rfl, callsAppend _ _⟩

theorem decodingSkip (cl : OrazioClient) (outcome : ReadOutcome) (taken : List ReadOutcome) (none : ¬ outcome.n ≠ 0) :
    decoding cl (outcome :: taken) = decoding cl taken := by
  have read : bytesRead (outcome :: taken) = bytesRead taken := List.filterMap_cons_none (if_neg none)
  rw [decoding, decoding, read]

theorem decodingAppend {next : OrazioClient} {first : List ReadOutcome} (later : List ReadOutcome)
    (follows : Follows cl next first) :
    (decoding cl (first ++ later)).handler = (decoding next later).handler ∧
    (decoding cl (first ++ later)).world = (decoding next later).world ∧
    decodedPackets cl (first ++ later) = decodedPackets cl first ++ decodedPackets next later := by
  have read : bytesRead (first ++ later) = bytesRead first ++ bytesRead later := List.filterMap_append
  have whole : decoding cl (first ++ later) = _ :=
    (congrArg (PacketHandler.rxBytes operation cl.packetHandler ⟨cl.memory, ()⟩) read).trans (rxBytesAppend _ _ _ _ _)
  rw [decodedPackets, whole]
  simp only [callsAppend, List.map_append, decodedPackets]
  rw [decoding, follows.handler, follows.memory]
  exact ⟨rfl, rfl, rfl⟩

theorem Follows.trans {mid later : OrazioClient} {first second : List ReadOutcome} (one : Follows cl mid first)
    (two : Follows mid later second) : Follows cl later (first ++ second) := by
  obtain ⟨handler, world, -⟩ := decodingAppend second one
  exact ⟨one.only.trans two.only, two.handler.trans handler.symm, two.memory.trans (congrArg World.memory world).symm⟩

/- One packet read: which, and what it left behind. -/
structure Received (cl later : OrazioClient) (taken : List ReadOutcome) (op : ClientOp) (body : List UInt8) : Prop where
  installed : op ∈ installedOps
  shape : ∃ rest, body = op.type :: op.size :: rest ∧ rest.length + 2 = op.size.toNat
  follows : Follows cl later taken
  decoded : decodedPackets cl taken = [body]
  memory : ∀ a, ¬ InBuffer a → later.memory a = copied op body cl.memory a
  receiving : Receiving later []

theorem copiedCongr {op : ClientOp} {body : List UInt8} {m k : Memory} {a : Addr} (same : m a = k a) :
    copied op body m a = copied op body k a := by
  simp only [copied, same]

theorem readLoopReceives {reads : List ReadOutcome} {later : OrazioClient} (receiving : Receiving cl seen)
    (returned : readLoop cl reads = .ok later) :
    ∃ taken op body, reads = taken ++ later.fd.reads ∧ Received cl later taken op body := by
  induction reads generalizing cl seen with
  | nil => contradiction
  | cons outcome rest ih =>
    unfold readLoop at returned
    by_cases some : outcome.n ≠ 0
    · simp only [if_pos some] at returned
      obtain ⟨next, here⟩ := turn receiving outcome.c
      cases here with
      | quiet status noCall memory after =>
        rw [if_neg status] at returned
        let read : OrazioClient := { (rxByte cl outcome.c).2 with rxBytes := cl.rxBytes + outcome.n }
        have receivingRead : Receiving read next := ⟨after.table, after.reading, after.buffer, after.ring⟩
        obtain ⟨taken, op, body, split, got⟩ := ih receivingRead returned
        obtain ⟨handler, world, called⟩ := decodingCons cl read outcome taken some rfl rfl
        refine ⟨outcome :: taken, op, body, by rw [split]; rfl, got.installed, got.shape, ⟨?_, ?_, ?_⟩, ?_, ?_,
          got.receiving⟩
        · exact ReadOnly.trans ⟨rfl⟩ got.follows.only
        · rw [handler]
          exact got.follows.handler
        · rw [world]
          exact got.follows.memory
        · rw [decodedPackets, called, noCall, List.nil_append]
          exact got.decoded
        · intro a outside
          exact (got.memory a outside).trans (copiedCongr (memory a outside))
      | @packet op rest' installed size status stored call memory done after =>
        rw [if_pos status] at returned
        cases returned
        obtain ⟨handler, world, called⟩ := decodingCons cl (rxByte cl outcome.c).2 outcome [] some rfl rfl
        refine ⟨[outcome], op, op.type :: op.size :: rest', rfl, installed, ⟨rest', rfl, size⟩, ⟨⟨rfl⟩, ?_, ?_⟩, ?_, ?_,
          ⟨after.table, after.reading, after.buffer, after.ring⟩⟩
        · rw [handler]
          rfl
        · rw [world]
          rfl
        · rw [decodedPackets, called, call]
          exact congrArg (fun body => [body]) stored
        · exact fun a _ => congrFun memory a
    · simp only [if_neg some] at returned
      let read : OrazioClient := { cl with rxBytes := cl.rxBytes + outcome.n }
      have receivingRead : Receiving read seen :=
        ⟨receiving.table, receiving.reading, receiving.buffer, receiving.ring⟩
      obtain ⟨taken, op, body, split, got⟩ := ih receivingRead (by simpa using returned)
      have skipped := decodingSkip cl outcome taken some
      refine ⟨outcome :: taken, op, body, by rw [split]; rfl, got.installed, got.shape, ⟨?_, ?_, ?_⟩, ?_, got.memory,
        got.receiving⟩
      · exact ReadOnly.trans ⟨rfl⟩ got.follows.only
      · rw [skipped]
        exact got.follows.handler
      · rw [skipped]
        exact got.follows.memory
      · rw [decodedPackets, skipped]
        exact got.decoded

/- Bytes that complete no packet are read on and on. -/
theorem readLoopSkips (taken : List ReadOutcome) (receiving : Receiving cl seen)
    (noCall : calls (decoding cl taken).trace = []) (rest : List ReadOutcome) :
    ∃ later next, readLoop cl (taken ++ rest) = readLoop later rest ∧ Follows cl later taken ∧
      later.fd = cl.fd ∧ (∀ a, ¬ InBuffer a → later.memory a = cl.memory a) ∧ Receiving later next := by
  induction taken generalizing cl seen with
  | nil => exact ⟨cl, seen, rfl, ⟨⟨rfl⟩, rfl, rfl⟩, rfl, fun _ _ => rfl, receiving⟩
  | cons outcome taken ih =>
    by_cases some : outcome.n ≠ 0
    · let read : OrazioClient := { (rxByte cl outcome.c).2 with rxBytes := cl.rxBytes + outcome.n }
      obtain ⟨handler, world, called⟩ := decodingCons cl read outcome taken some rfl rfl
      rw [called, List.append_eq_nil_iff] at noCall
      obtain ⟨next, here⟩ := turn receiving outcome.c
      cases here with
      | quiet status _ memory after =>
        have receivingRead : Receiving read next := ⟨after.table, after.reading, after.buffer, after.ring⟩
        obtain ⟨later, last, same, follows, fd, kept, final⟩ := ih receivingRead noCall.2
        refine ⟨later, last, ?_, ⟨ReadOnly.trans ⟨rfl⟩ follows.only, ?_, ?_⟩, fd, fun a outside => ?_, final⟩
        · rw [List.cons_append, readLoop]
          simp only [if_pos some, if_neg status]
          exact same
        · rw [handler]
          exact follows.handler
        · rw [world]
          exact follows.memory
        · exact (kept a outside).trans (memory a outside)
      | packet _ _ _ _ call => rw [call] at noCall; exact absurd noCall.1 (by simp)
    · have skipped := decodingSkip cl outcome taken some
      rw [skipped] at noCall
      let read : OrazioClient := { cl with rxBytes := cl.rxBytes + outcome.n }
      have receivingRead : Receiving read seen :=
        ⟨receiving.table, receiving.reading, receiving.buffer, receiving.ring⟩
      obtain ⟨later, last, same, follows, fd, kept, final⟩ := ih receivingRead noCall
      refine ⟨later, last, ?_, ⟨ReadOnly.trans ⟨rfl⟩ follows.only, ?_, ?_⟩, fd, kept, final⟩
      · rw [List.cons_append, readLoop]
        simp only [if_neg some]
        simpa using same
      · rw [skipped]
        exact follows.handler
      · rw [skipped]
        exact follows.memory

def onLine (bytes : List UInt8) : List ReadOutcome := bytes.map fun c => ⟨1,c⟩

theorem bytesReadOnLine (bytes : List UInt8) : bytesRead (onLine bytes) = bytes := by
  induction bytes with
  | nil => rfl
  | cons c rest ih => exact congrArg (c :: ·) ih

theorem onLineAppend (first later : List UInt8) : onLine (first ++ later) = onLine first ++ onLine later := List.map_append

theorem Receiving.operationOf (receiving : Receiving cl seen) {op : ClientOp} (installed : op ∈ installedOps) :
    cl.packetHandler.entry op.type = some op := (receiving.table op.type op).mpr ⟨installed, rfl⟩

theorem Receiving.sameType (receiving : Receiving cl seen) {op other : ClientOp} (installed : op ∈ installedOps)
    (installedToo : other ∈ installedOps) (type : op.type = other.type) : op = other :=
  Option.some.inj ((receiving.operationOf installed).symm.trans
    ((congrArg cl.packetHandler.entry type).trans (receiving.operationOf installedToo)))

/- A whole frame is one packet, and the next byte is read after it. -/
theorem frameRead (receiving : Receiving cl seen) (fn : cl.packetHandler.rxFn = .rxAA) {op : ClientOp} {rest : List UInt8}
    (installed : op ∈ installedOps) (size : rest.length + 2 = op.size.toNat) (more : List ReadOutcome) :
    ∃ later, readLoop cl (onLine (frame (op.type :: op.size :: rest)) ++ more) = .ok later ∧ later.fd.reads = more ∧
      Received cl later (onLine (frame (op.type :: op.size :: rest))) op (op.type :: op.size :: rest) ∧
      later.packetHandler.rxFn = .rxAA := by
  have found := receiving.operationOf installed
  have named : Named operation ⟨cl.memory, ()⟩ op op.type op.size :=
    ⟨rfl, rfl, (installedSizes op installed).1, (installedSizes op installed).2⟩
  have buffer : ((operation ⟨cl.memory, ()⟩ op).initializeBufferFn op.type op.size ⟨cl.memory, ()⟩).1 =
      some packetBuffer := rfl
  obtain ⟨arrived, -⟩ := bodyArrives stableOperation fn found named buffer size
  have delivered := frameDelivered stableOperation fn found named buffer size rfl
  obtain ⟨skipped, next, same, follows, fd, -, middle⟩ :=
    readLoopSkips (onLine (0xAA :: 0x55 :: op.type :: op.size :: rest)) receiving
      (by rw [decoding, bytesReadOnLine]; exact arrived.quiet.noCall) (⟨1, xorSum (op.type :: op.size :: rest)⟩ :: more)
  have handler : skipped.packetHandler = _ := follows.handler
  rw [decoding, bytesReadOnLine] at handler
  have atChecksum : skipped.packetHandler.rxFn = .rxChecksum := by rw [handler]; exact arrived.fn
  have checksum : skipped.packetHandler.rxChecksum = xorSum (op.type :: op.size :: rest) := by
    rw [handler]
    exact arrived.filling.checksum
  have status : (rxByte skipped (xorSum (op.type :: op.size :: rest))).1 = .syncChecksum := by
    rw [← checksum]
    exact completeStatus operation _ atChecksum
  let later : OrazioClient := { (rxByte skipped (xorSum (op.type :: op.size :: rest))).2 with
    rxBytes := skipped.rxBytes + 1, fd := { skipped.fd with reads := more } }
  have returned : readLoop skipped (⟨1, xorSum (op.type :: op.size :: rest)⟩ :: more) = .ok later := by
    have one : (1 : Int) ≠ 0 := by decide
    rw [readLoop]
    simp only [if_pos one, if_pos status]
    rfl
  have whole : frame (op.type :: op.size :: rest) =
      (0xAA :: 0x55 :: op.type :: op.size :: rest) ++ [xorSum (op.type :: op.size :: rest)] := rfl
  have through : readLoop cl (onLine (frame (op.type :: op.size :: rest)) ++ more) = .ok later := by
    rw [whole, onLineAppend, List.append_assoc]
    exact same.trans returned
  obtain ⟨taken, other, body, split, got⟩ := readLoopReceives receiving through
  obtain rfl : onLine (frame (op.type :: op.size :: rest)) = taken := List.append_cancel_right split
  obtain ⟨memory, call, stored⟩ := delivered.call
  obtain ⟨otherRest, shape, -⟩ := got.shape
  have decoded := got.decoded
  rw [decodedPackets, decoding, bytesReadOnLine, call, List.map_singleton, ← size] at decoded
  obtain rfl : op.type :: op.size :: rest = body := stored.symm.trans (List.cons.inj decoded).1
  obtain rfl : op = other := receiving.sameType installed got.installed (List.cons.inj shape).1
  refine ⟨later, through, rfl, got, ?_⟩
  rw [got.follows.handler, decoding, bytesReadOnLine]
  exact delivered.fn

end Packets

end OrazioLogger.OrazioClient
