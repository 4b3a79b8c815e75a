import OrazioLogger.FrameDelivery
import OrazioLogger.Installation

/-! Two handlers joined by a line. The line loses nothing; when a packet is sent
and when a byte is drained is up to the schedule. What the receiver hands over
is what was sent, whatever the payloads contain. -/
namespace OrazioLogger.FrameRoundTrip
open ByteMemory RingBuffer PacketHandler

variable {Q σ : Type}

/- A packet as its sender holds it when `sendPacket` is called. -/
structure Outgoing where
  memory : Memory
  header : Addr

def Outgoing.bytes (packet : Outgoing) : List UInt8 := packetBytes packet.memory packet.header

structure Link (Q σ : Type) where
  sender : PacketHandler Q
  toSend : List Outgoing
  drained : List UInt8
  receiver : RxRun (PacketOperations σ) σ

inductive Action where
  | send
  | drain
  deriving DecidableEq, Repr

def start (sender : PacketHandler Q) (packets : List Outgoing) (receiver : PacketHandler (PacketOperations σ))
    (w : World σ) : Link Q σ :=
  ⟨initializeHandler sender, packets, [], ⟨[],receiver,w,[]⟩⟩

/- A refused packet stays first in line and is tried again by a later `send`. -/
def act (l : Link Q σ) : Action → Link Q σ
  | .send => match l.toSend with
    | [] => l
    | packet :: rest => match sendPacket packet.memory l.sender packet.header with
      | (.success, sender) => { l with sender := sender, toSend := rest }
      | (_, sender) => { l with sender := sender }
  | .drain =>
    if l.sender.tx.size > 0 then
      let (c, sender) := txByte l.sender
      let byte := rxByte direct l.receiver.handler l.receiver.world c
      { l with
        sender := sender
        drained := l.drained ++ [c]
        receiver := ⟨l.receiver.statuses ++ [byte.status], byte.handler, byte.world, l.receiver.trace ++ byte.trace⟩ }
    else l

def run (l : Link Q σ) (schedule : List Action) : Link Q σ := schedule.foldl act l

/- The buffers passed to `on_receive`, each read over its operation's size. -/
def received (trace : List (RxEvent (PacketOperations σ))) : List (List UInt8) :=
  (calls trace).map fun call => load call.2.2 call.2.1 call.1.size.toNat

theorem receivedAppend (xs ys : List (RxEvent (PacketOperations σ))) :
    received (xs ++ ys) = received xs ++ received ys := by
  simp [received, callsAppend]

structure Ready (op : PacketOperations σ) : Prop where
  low : 4 ≤ op.size.toNat
  high : op.size.toNat ≤ 251
  buffer : ∀ w, (op.initializeBufferFn op.type op.size w).1.isSome
  callback : op.onReceiveFn.isSome

/- The type byte names an installed operation and the size byte is that operation's. -/
def Sendable (receiver : PacketHandler (PacketOperations σ)) (packet : Outgoing) : Prop :=
  ∃ op, receiver.entry (packet.memory packet.header) = some op ∧ packet.memory (packet.header + 1) = op.size

/- A receiver of ready operations, each in the slot of its own type. -/
def Prepared (receiver : PacketHandler (PacketOperations σ)) : Prop :=
  ∀ t op, receiver.entry t = some op → op.type = t ∧ Ready op

theorem sendableBytes {receiver : PacketHandler (PacketOperations σ)} {packet : Outgoing}
    (prepared : Prepared receiver) (sendable : Sendable receiver packet) :
    ∃ op rest, receiver.entry op.type = some op ∧ Ready op ∧ rest.length + 2 = op.size.toNat ∧
      packet.bytes = op.type :: op.size :: rest := by
  obtain ⟨op, found, size⟩ := sendable
  obtain ⟨type, ready⟩ := prepared _ op found
  have low := ready.low
  obtain ⟨n, length⟩ : ∃ n, op.size.toNat = n + 1 + 1 := ⟨op.size.toNat - 2, by omega⟩
  refine ⟨op, load packet.memory (packet.header + 1 + 1) n, by rwa [type], ready, by simp [length], ?_⟩
  rw [Outgoing.bytes, packetBytes, size, length, loadCons, loadCons, ← type, size]

theorem oneFrame {h : PacketHandler (PacketOperations σ)} {w : World σ} {packet : Outgoing} (fn : h.rxFn = .rxAA)
    (prepared : Prepared h) (sendable : Sendable h packet) :
    let r := rxBytes direct h w (frame packet.bytes)
    (∀ status ∈ r.statuses, 0 < status.code) ∧ r.handler.rxFn = .rxAA ∧ received r.trace = [packet.bytes] := by
  obtain ⟨op, rest, found, ready, full, bytes⟩ := sendableBytes prepared sendable
  obtain ⟨b, granted⟩ := Option.isSome_iff_exists.mp (ready.buffer w)
  have named : Named direct w op op.type op.size := ⟨rfl, rfl, ready.low, by have := ready.high; omega⟩
  have delivered := frameDelivered stableDirect fn found named granted full ready.callback
  rw [← bytes] at delivered
  obtain ⟨memory, call, stored⟩ := delivered.call
  have size : packet.bytes.length = op.size.toNat := by rw [bytes]; simpa using full
  exact ⟨delivered.positive, delivered.fn, by simp [received, call, ← size, stored]⟩

theorem sendableKeep {h k : PacketHandler (PacketOperations σ)} (only : ReceiveOnly h k) {packet : Outgoing}
    (sendable : Sendable h packet) : Sendable k packet := by
  obtain ⟨op, found, size⟩ := sendable
  exact ⟨op, (only.entry _).trans found, size⟩

theorem preparedKeep {h k : PacketHandler (PacketOperations σ)} (only : ReceiveOnly h k) (prepared : Prepared h) :
    Prepared k := fun t op found => prepared t op (by rwa [only.entry t] at found)

theorem allFrames {packets : List Outgoing} {h : PacketHandler (PacketOperations σ)} {w : World σ}
    (fn : h.rxFn = .rxAA) (prepared : Prepared h) (sendable : ∀ packet ∈ packets, Sendable h packet) :
    let r := rxBytes direct h w (packets.flatMap fun packet => frame packet.bytes)
    (∀ status ∈ r.statuses, 0 < status.code) ∧ r.handler.rxFn = .rxAA ∧
      received r.trace = packets.map Outgoing.bytes := by
  induction packets generalizing h w with
  | nil => exact ⟨by simp [rxBytes], fn, rfl⟩
  | cons packet rest ih =>
    obtain ⟨headOk, headFn, headCall⟩ := oneFrame (w := w) fn prepared (sendable packet List.mem_cons_self)
    have only : ReceiveOnly h (rxBytes direct h w (frame packet.bytes)).handler :=
      rxBytesReceiveOnly direct h w _
    obtain ⟨tailOk, tailFn, tailCalls⟩ := ih headFn (preparedKeep only prepared)
      (fun other member => sendableKeep only (sendable other (List.mem_cons_of_mem packet member)))
    simp only [List.flatMap_cons, rxBytesAppend]
    refine ⟨?_, tailFn, ?_⟩
    · intro status member
      rcases List.mem_append.mp member with first | later
      · exact headOk status first
      · exact tailOk status later
    · rw [receivedAppend, headCall, tailCalls]
      rfl

/-! The invariant of a run: frames sent so far are the bytes drained and the
bytes still in the ring, and the receiver is where the drained bytes take it. -/

structure InStep (packets : List Outgoing) (h : PacketHandler (PacketOperations σ)) (w : World σ)
    (l : Link Q σ) : Prop where
  ring : Valid packetSizeMax l.sender.tx
  sent : ∃ sent, packets = sent ++ l.toSend ∧
    l.drained ++ waiting l.sender = sent.flatMap fun packet => frame packet.bytes
  fed : l.receiver = rxBytes direct h w l.drained

variable {packets : List Outgoing} {h : PacketHandler (PacketOperations σ)} {w : World σ} {l : Link Q σ}

theorem startInStep (sender : PacketHandler Q) : InStep packets h w (start sender packets h w) where
  ring := validEmpty (by decide)
  sent := ⟨[], rfl, contentsEmpty rfl⟩
  fed := rfl

theorem sendInStep (inStep : InStep packets h w l) : InStep packets h w (act l .send) := by
  obtain ⟨ring, ⟨sent, split, bytes⟩, fed⟩ := inStep
  cases rest : l.toSend with
  | nil => simpa only [act, rest] using ⟨ring, ⟨sent, split, bytes⟩, fed⟩
  | cons packet rest' =>
    by_cases short : packetSizeMax - l.sender.tx.size < (packet.memory (packet.header + 1)).toNat + 3
    · simp only [act, rest, sendPacketRefused short]
      exact ⟨ring, ⟨sent, split.trans (by rw [rest]), bytes⟩, fed⟩
    · obtain ⟨success, ringAfter, queued, -⟩ :=
        sendPacketQueues packet.memory packet.header ring (by omega)
      simp only [act, rest]
      generalize sendPacket packet.memory l.sender packet.header = r at success ringAfter queued
      obtain ⟨status, sender⟩ := r
      obtain rfl : status = .success := success
      refine ⟨ringAfter, ⟨sent ++ [packet], by simp [split, rest], ?_⟩, fed⟩
      change l.drained ++ waiting sender = _
      rw [queued, ← List.append_assoc, bytes]
      simp [Outgoing.bytes]

theorem drainInStep (inStep : InStep packets h w l) : InStep packets h w (act l .drain) := by
  by_cases positive : l.sender.tx.size > 0
  · obtain ⟨taken, ringAfter, -⟩ := txByteTakes inStep.ring (by omega)
    obtain ⟨sent, split, bytes⟩ := inStep.sent
    simp only [act, if_pos positive]
    refine ⟨ringAfter, ⟨sent, split, ?_⟩, ?_⟩
    · simpa [taken] using bytes
    · rw [rxBytesSnoc, ← inStep.fed]
  · simpa only [act, if_neg positive] using inStep

theorem runInStep (schedule : List Action) (inStep : InStep packets h w l) :
    InStep packets h w (run l schedule) := by
  induction schedule generalizing l with
  | nil => exact inStep
  | cons action rest ih =>
    cases action with
    | send => exact ih (sendInStep inStep)
    | drain => exact ih (drainInStep inStep)

/- What a run must show at every moment, for the packets it was given. -/
structure Faithful (packets : List Outgoing) (l : Link Q σ) : Prop where
  noError : ∀ status ∈ l.receiver.statuses, 0 ≤ status.code
  inOrder : received l.receiver.trace <+: packets.map Outgoing.bytes
  afterEachFrame : ∀ k, l.drained = (packets.take k).flatMap (fun packet => frame packet.bytes) →
    l.receiver.handler.rxFn = .rxAA ∧ received l.receiver.trace = (packets.take k).map Outgoing.bytes
  allArrive : l.toSend = [] → l.sender.tx.size = 0 →
    l.receiver.handler.rxFn = .rxAA ∧ received l.receiver.trace = packets.map Outgoing.bytes
  neverStuck : l.sender.tx.size = 0 → ∀ packet rest, l.toSend = packet :: rest →
    (sendPacket packet.memory l.sender packet.header).1 = .success

theorem inStepFaithful (fn : h.rxFn = .rxAA) (prepared : Prepared h) (sendable : ∀ packet ∈ packets, Sendable h packet)
    (inStep : InStep packets h w l) : Faithful packets l := by
  obtain ⟨ring, ⟨sent, split, bytes⟩, fed⟩ := inStep
  obtain ⟨allOk, allFn, allCalls⟩ := allFrames (w := w) fn prepared sendable
  have whole : l.drained ++ (waiting l.sender ++ l.toSend.flatMap fun packet => frame packet.bytes) =
      packets.flatMap fun packet => frame packet.bytes := by
    rw [← List.append_assoc, bytes, split, List.flatMap_append]
  rw [← whole, rxBytesAppend, ← fed] at allOk allCalls
  have framesOf (k : Nat) (exact : l.drained = (packets.take k).flatMap fun packet => frame packet.bytes) :
      l.receiver.handler.rxFn = .rxAA ∧ received l.receiver.trace = (packets.take k).map Outgoing.bytes := by
    have some : ∀ packet ∈ packets.take k, Sendable h packet :=
      fun packet member => sendable packet (List.mem_of_mem_take member)
    have part := allFrames (w := w) fn prepared some
    rw [← exact, ← fed] at part
    exact part.2
  refine ⟨?_, ?_, framesOf, ?_, ?_⟩
  · intro status member
    exact (allOk status (List.mem_append_left _ member)).le
  · rw [receivedAppend] at allCalls
    exact ⟨_, allCalls⟩
  · intro nothingLeft empty
    have drained : l.drained = (packets.take packets.length).flatMap fun packet => frame packet.bytes := by
      rw [List.take_length, ← whole, nothingLeft, (waitingEmpty ring).mpr empty]
      simp
    simpa using framesOf packets.length drained
  · intro empty packet rest toSend
    have member : packet ∈ packets := by rw [split, toSend]; simp
    obtain ⟨op, found, size⟩ := sendable packet member
    have high := (prepared _ op found).2.high
    exact (sendPacketQueues packet.memory packet.header ring (by rw [empty, size]; simp [packetSizeMax]; omega)).1

theorem receiverPrepared {blank : PacketHandler (PacketOperations σ)} {installed : List (PacketOperations σ)}
    (ready : ∀ op ∈ installed, Ready op) : Prepared (receiver blank installed) := by
  intro t op found
  obtain ⟨member, type⟩ := receiverEntry found
  exact ⟨type, ready op member⟩

theorem streamRoundTrip (sender : PacketHandler Q) (blank : PacketHandler (PacketOperations σ))
    (installed : List (PacketOperations σ)) (ready : ∀ op ∈ installed, Ready op) (w : World σ)
    (packets : List Outgoing) (sendable : ∀ packet ∈ packets, Sendable (receiver blank installed) packet)
    (schedule : List Action) :
    Faithful packets (run (start sender packets (receiver blank installed) w) schedule) :=
  inStepFaithful (receiverFn blank installed) (receiverPrepared ready) sendable
    (runInStep schedule (startInStep sender))

/- A four-byte packet whose sequence number is itself a preamble, and another one. -/
def preamblePacket : Outgoing := ⟨fun a => if a = 0 then 1 else if a = 1 then 4 else if a = 2 then 0xAA else 0x55, 0⟩

def otherPacket : Outgoing := ⟨fun a => if a = 10 then 1 else if a = 11 then 4 else 7, 10⟩

theorem preamblePacketRoundTrip :
    Faithful [preamblePacket, otherPacket] (run (start (blankHandler Unit) [preamblePacket, otherPacket]
      (receiver (blankHandler _) [fourByteOp]) ⟨fun _ => 0, ()⟩) (.send :: .drain :: .send :: List.replicate 13 .drain)) :=
  streamRoundTrip (blankHandler Unit) (blankHandler _) [fourByteOp]
    (by intro op member; rw [List.mem_singleton.mp member]; exact ⟨by decide, by decide, fun _ => rfl, rfl⟩)
    ⟨fun _ => 0, ()⟩ [preamblePacket, otherPacket]
    (List.forall_mem_cons.mpr ⟨⟨fourByteOp, rfl, rfl⟩, List.forall_mem_singleton.mpr ⟨fourByteOp, rfl, rfl⟩⟩)
    (.send :: .drain :: .send :: List.replicate 13 .drain)

end OrazioLogger.FrameRoundTrip
