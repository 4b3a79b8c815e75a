import OrazioLogger.ClientCalls

/-! `OrazioClient_sync` and the epochs of the firmware: at the end of each cycle the
client holds what the robot sent up to the end of that epoch, and nothing later. -/
namespace OrazioLogger.OrazioClient
open ByteMemory OrazioPackets PacketHandler RingBuffer Outcome

/- A packet of the robot, but for its number: of a type the client knows, of the size of that type
and about a joint the client has a place for. -/
structure EpochPacket where
  op : ClientOp
  payload : List UInt8
  installed : op ∈ installedOps
  sized : payload.length + 4 = op.size.toNat
  joint : op.indexed = true → (payload.getD 0 0).toNat < numJointsMax

def EpochPacket.body (p : EpochPacket) (seq : PacketSeq) : List UInt8 :=
  p.op.type :: p.op.size :: seq.toUInt8 :: (seq >>> 8).toUInt8 :: p.payload

/- What is sent in an epoch before its END_EPOCH. -/
structure Epoch where
  packets : List EpochPacket
  ordinary : ∀ p ∈ packets, p.op ≠ endEpochOp

def endOfEpoch : EpochPacket := ⟨endEpochOp, [], by decide, by decide, by decide⟩

def Epoch.all (e : Epoch) : List EpochPacket := e.packets ++ [endOfEpoch]

def framed (seq : PacketSeq) (packets : List EpochPacket) : List UInt8 := packets.flatMap fun p => frame (p.body seq)

/- The bytes of the first `n` epochs, when the first of them has number `seq`. -/
def emitted (epochs : Nat → Epoch) (seq : PacketSeq) : Nat → List UInt8
  | 0 => []
  | n + 1 => framed seq (epochs 0).all ++ emitted (fun k => epochs (k + 1)) (seq + 1) n

/- Packets copied to their places one after the other. -/
def deposited (seq : PacketSeq) (packets : List EpochPacket) (m : Memory) : Memory :=
  packets.foldl (fun m p => copied p.op (p.body seq) m) m

/- The packets of the client once the first `n` epochs are stored. -/
def stored (epochs : Nat → Epoch) (seq : PacketSeq) (m : Memory) : Nat → Memory
  | 0 => m
  | n + 1 => stored (fun k => epochs (k + 1)) (seq + 1) (deposited seq (epochs 0).all m) n

def EpochPacket.place (p : EpochPacket) : Addr := destination p.op (p.body 0)

/-! The places of the packets do not overlap. -/

def slots : List (Addr × Nat) :=
  installedOps.flatMap fun op =>
    (List.range (if op.indexed then numJointsMax else 1)).map fun i => (op.dest + op.size.toNat * i, op.size.toNat)

theorem slotsApart : ∀ a ∈ slots, ∀ b ∈ slots, a = b ∨ Disjoint a.1 a.2 b.1 b.2 := by decide +kernel

theorem slotsBelow : ∀ a ∈ slots, a.1 + a.2 ≤ packetBuffer := by decide +kernel

theorem endEpochSlot : ∀ op ∈ installedOps, ∀ i < numJointsMax,
    (op.dest + op.size.toNat * i, op.size.toNat) = (endEpoch, sizeofEndEpochPacket.toNat) → op = endEpochOp := by
  decide +kernel

section Places
variable {p q : EpochPacket} {seq : PacketSeq} {m : Memory}

theorem EpochPacket.bodyLength (p : EpochPacket) (seq : PacketSeq) : (p.body seq).length = p.op.size.toNat := p.sized

theorem EpochPacket.placed (p : EpochPacket) (seq : PacketSeq) : destination p.op (p.body seq) = p.place := rfl

theorem EpochPacket.placeIndexed (p : EpochPacket) : ∃ i < numJointsMax, p.place = p.op.dest + p.op.size.toNat * i ∧
    (p.place, p.op.size.toNat) ∈ slots := by
  have member (i : Nat) (inRange : i < if p.op.indexed then numJointsMax else 1) :
      (p.op.dest + p.op.size.toNat * i, p.op.size.toNat) ∈ slots :=
    List.mem_flatMap.mpr ⟨p.op, p.installed, List.mem_map.mpr ⟨i, List.mem_range.mpr inRange, rfl⟩⟩
  unfold EpochPacket.place destination
  rw [p.bodyLength]
  by_cases indexed : p.op.indexed = true
  · rw [if_pos indexed]
    exact ⟨_, p.joint indexed, rfl, member _ (by rw [if_pos indexed]; exact p.joint indexed)⟩
  · rw [if_neg indexed]
    exact ⟨0, by decide, rfl, member 0 (by rw [if_neg indexed]; decide)⟩

theorem copiedPlace (p : EpochPacket) (seq : PacketSeq) (m : Memory) (a : Addr) : copied p.op (p.body seq) m a =
    if Inside p.place p.op.size.toNat a then (p.body seq).getD (a - p.place) 0 else m a := by
  rw [copied, p.placed, p.bodyLength]

/- A place keeps the number of the epoch, whatever is copied with that number. -/
theorem copiedStamped (known : q = p ∨ load16 m (p.place + 2) = seq) :
    load16 (copied q.op (q.body seq) m) (p.place + 2) = seq := by
  obtain ⟨_, _, _, here⟩ := p.placeIndexed
  obtain ⟨_, _, _, there⟩ := q.placeIndexed
  have long : 4 ≤ p.op.size.toNat := (installedSizes p.op p.installed).1
  have inside (i : Nat) (below : i < 4) : Inside p.place p.op.size.toNat (p.place + i) :=
    ⟨Nat.le_add_right _ _, Nat.add_lt_add_left (Nat.lt_of_lt_of_le below long) _⟩
  rcases slotsApart _ there _ here with same | apart
  · obtain ⟨place, size⟩ := Prod.mk.inj same
    have byte (i : Nat) (below : i < 4) : copied q.op (q.body seq) m (p.place + i) = (q.body seq).getD i 0 := by
      rw [copiedPlace, place, size, if_pos (inside i below), Nat.add_sub_cancel_left]
    rw [load16, byte 2 (by decide), byte 3 (by decide)]
    exact bytesOfWord seq
  · have byte (i : Nat) (below : i < 4) : copied q.op (q.body seq) m (p.place + i) = m (p.place + i) := by
      rw [copiedPlace, if_neg (disjointOutside apart (inside i below))]
    have other : q ≠ p := by
      rintro rfl
      exact disjointOutside apart (inside 0 (by decide)) (inside 0 (by decide))
    rw [load16, byte 2 (by decide), byte 3 (by decide)]
    exact known.resolve_left other

theorem depositedStamped (packets : List EpochPacket) (known : p ∈ packets ∨ load16 m (p.place + 2) = seq) :
    load16 (deposited seq packets m) (p.place + 2) = seq := by
  induction packets generalizing m with
  | nil => exact known.resolve_left List.not_mem_nil
  | cons q rest ih =>
    rw [deposited, List.foldl_cons]
    apply ih
    rcases known with member | stamped
    · rcases List.mem_cons.mp member with rfl | later
      · exact Or.inr (copiedStamped (Or.inl rfl))
      · exact Or.inl later
    · exact Or.inr (copiedStamped (Or.inr stamped))

/- Only END_EPOCH changes the number of the epoch. -/
theorem depositedOrdinary (packets : List EpochPacket) (ordinary : ∀ p ∈ packets, p.op ≠ endEpochOp) :
    load16 (deposited seq packets m) (endEpoch + 2) = load16 m (endEpoch + 2) := by
  induction packets generalizing m with
  | nil => rfl
  | cons q rest ih =>
    obtain ⟨i, inRange, place, there⟩ := q.placeIndexed
    have apart : Disjoint q.place q.op.size.toNat endEpoch sizeofEndEpochPacket.toNat := by
      refine (slotsApart _ there (endEpoch, sizeofEndEpochPacket.toNat) (by decide +kernel)).resolve_left fun same => ?_
      rw [place] at same
      exact ordinary q List.mem_cons_self (endEpochSlot q.op q.installed i inRange same)
    have byte (j : Nat) (below : j < 4) : copied q.op (q.body seq) m (endEpoch + j) = m (endEpoch + j) := by
      rw [copiedPlace, if_neg (disjointOutside apart ⟨Nat.le_add_right _ _, Nat.add_lt_add_left below _⟩)]
    rw [deposited, List.foldl_cons]
    refine (ih fun p member => ordinary p (List.mem_cons_of_mem q member)).trans ?_
    rw [load16, byte 2 (by decide), byte 3 (by decide)]
    rfl

theorem depositedCongr (packets : List EpochPacket) {k : Memory} (same : ∀ a, a < packetBuffer → m a = k a) :
    ∀ a, a < packetBuffer → deposited seq packets m a = deposited seq packets k a := by
  induction packets generalizing m k with
  | nil => exact same
  | cons q rest ih => exact ih fun a below => copiedCongr (same a below)

theorem load16Congr {k : Memory} {a : Addr} (same : ∀ x, x < packetBuffer → k x = m x) (below : a + 1 < packetBuffer) :
    load16 k a = load16 m a := by
  rw [load16, load16, same a (Nat.lt_of_succ_lt below), same (a + 1) below]

theorem EpochPacket.numberBelow (p : EpochPacket) : p.place + 2 + 1 < packetBuffer := by
  obtain ⟨_, _, _, here⟩ := p.placeIndexed
  have long : 4 ≤ p.op.size.toNat := (installedSizes p.op p.installed).1
  exact Nat.lt_of_lt_of_le (Nat.add_lt_add_left long p.place) (slotsBelow _ here)

theorem storedCongr (epochs : Nat → Epoch) (n : Nat) {k : Memory} (same : ∀ a, a < packetBuffer → m a = k a) :
    ∀ a, a < packetBuffer → stored epochs seq m n a = stored epochs seq k n a := by
  induction n generalizing epochs seq m k with
  | zero => exact same
  | succ n ih => exact ih _ (depositedCongr _ same)

theorem nextNumber (seq : PacketSeq) (k : Nat) : seq + 1 + UInt16.ofNat k = seq + UInt16.ofNat (k + 1) := by
  rw [UInt16.ofNat_add, UInt16.add_assoc, UInt16.add_comm 1]
  rfl

/- At the end of an epoch its packets carry its number. -/
theorem storedStamped (epochs : Nat → Epoch) (k : Nat) (member : p ∈ (epochs k).all) :
    load16 (stored epochs seq m (k + 1)) (p.place + 2) = seq + UInt16.ofNat k := by
  induction k generalizing epochs seq m with
  | zero => exact (depositedStamped _ (Or.inl member)).trans (UInt16.add_zero seq).symm
  | succ k ih =>
    exact (ih (fun i => epochs (i + 1)) member).trans (nextNumber seq k)

end Places

/-! One cycle. -/

/- A client between two epochs, the last one with number `current`. -/
structure Ready (cl : OrazioClient) (current : PacketSeq) : Prop where
  receiving : ∃ seen, Receiving cl seen
  hunting : cl.packetHandler.rxFn = .rxAA
  writeFree : cl.writeMutex = false
  readFree : cl.readMutex = false
  current : load16 cl.memory (endEpoch + 2) = current

/- These packets, and nothing else, were read and stored. -/
structure Taken (cl later : OrazioClient) (seq : PacketSeq) (packets : List EpochPacket) (more : List ReadOutcome) :
    Prop where
  reads : later.fd.reads = more
  writes : later.fd.writes = cl.fd.writes
  writeMutex : later.writeMutex = cl.writeMutex
  readFree : later.readMutex = false
  receiving : Receiving later []
  hunting : later.packetHandler.rxFn = .rxAA
  memory : ∀ a, a < packetBuffer → later.memory a = deposited seq packets cl.memory a

section Cycle
variable {cl next later : OrazioClient} {seq current : PacketSeq} {more : List ReadOutcome}

theorem Taken.cons {p : EpochPacket} {packets : List EpochPacket} {rest : List ReadOutcome} (one : Taken cl next seq [p] rest)
    (others : Taken next later seq packets more) : Taken cl later seq (p :: packets) more :=
  ⟨others.reads, others.writes.trans one.writes, others.writeMutex.trans one.writeMutex, others.readFree, others.receiving,
    others.hunting, fun a below => (others.memory a below).trans (depositedCongr packets one.memory a below)⟩

theorem outsideBuffer {a : Addr} (below : a < packetBuffer) : ¬ InBuffer a := fun inside =>
  absurd inside.1 (Nat.not_le_of_lt below)

/- One turn of the inner loop reads one packet. -/
theorem turnTakes (p : EpochPacket) (ready : Ready cl current) (reads : cl.fd.reads = onLine (frame (p.body seq)) ++ more) :
    ∃ read, lockRead cl = .ok { cl with readMutex := true } ∧ readPacket { cl with readMutex := true } = .ok read ∧
      Taken cl (unlockRead read) seq [p] more := by
  obtain ⟨seen, receiving⟩ := ready.receiving
  have locked : Receiving { cl with readMutex := true } seen := receiving.withMemory rfl (.refl _ _)
  have size : (seq.toUInt8 :: (seq >>> 8).toUInt8 :: p.payload).length + 2 = p.op.size.toNat := p.sized
  obtain ⟨read, returned, left, got, hunting⟩ := frameRead locked ready.hunting p.installed size more
  have writes : read.fd.writes = cl.fd.writes := by rw [got.follows.only.same]
  have writeMutex : read.writeMutex = cl.writeMutex := by rw [got.follows.only.same]
  refine ⟨read, by rw [lockRead, ready.readFree]; rfl, ?_, left, writes, writeMutex, rfl, ?_, hunting, ?_⟩
  · rw [readPacket]
    exact (congrArg (readLoop _) reads).trans returned
  · exact got.receiving.withMemory rfl (.refl _ _)
  · exact fun a below => got.memory a (outsideBuffer below)

theorem awaitEpochTakes (packets : List EpochPacket) (turns : Nat) (ordinary : ∀ p ∈ packets, p.op ≠ endEpochOp)
    (ready : Ready cl current) (new : current ≠ seq) (enough : packets.length < turns)
    (reads : cl.fd.reads = onLine (framed seq (packets ++ [endOfEpoch])) ++ more) :
    ∃ later, awaitEpoch cl current turns = .ok later ∧ Taken cl later seq (packets ++ [endOfEpoch]) more := by
  obtain ⟨turns, rfl⟩ : ∃ t, turns = t + 1 := ⟨turns - 1, by omega⟩
  induction packets generalizing cl turns with
  | nil =>
    rw [List.nil_append, framed, List.flatMap_singleton] at reads
    obtain ⟨read, lock, returned, taken⟩ := turnTakes endOfEpoch ready reads
    have number : load16 (unlockRead read).memory (endEpoch + 2) = seq :=
      (load16Congr taken.memory endOfEpoch.numberBelow).trans (depositedStamped [endOfEpoch] (Or.inl List.mem_cons_self))
    refine ⟨unlockRead read, ?_, taken⟩
    rw [awaitEpoch, bindOk lock, bindOk returned]
    simp only [number, if_neg new]
  | cons p rest ih =>
    rw [List.cons_append, framed, List.flatMap_cons, onLineAppend, List.append_assoc] at reads
    obtain ⟨read, lock, returned, taken⟩ := turnTakes p ready reads
    have number : load16 (unlockRead read).memory (endEpoch + 2) = current :=
      ((load16Congr taken.memory endOfEpoch.numberBelow).trans (depositedOrdinary [p] fun q member =>
        ordinary q (List.mem_cons.mpr (Or.inl (List.mem_singleton.mp member))))).trans ready.current
    have readyNext : Ready (unlockRead read) current :=
      ⟨⟨[], taken.receiving⟩, taken.hunting, taken.writeMutex.trans ready.writeFree, rfl, number⟩
    rw [List.length_cons] at enough
    obtain ⟨turns, rfl⟩ : ∃ t, turns = t + 1 := ⟨turns - 1, by omega⟩
    obtain ⟨later, goes, others⟩ := ih (fun q member => ordinary q (List.mem_cons_of_mem p member)) readyNext taken.reads
      turns (by omega)
    refine ⟨later, ?_, taken.cons others⟩
    rw [awaitEpoch, bindOk lock, bindOk returned]
    simp only [number, if_true]
    exact goes

/- The sending half of a cycle: nothing the client receives is touched. -/
structure Prepared (cl later : OrazioClient) (current : PacketSeq) : Prop where
  ready : Ready later current
  reads : later.fd.reads = cl.fd.reads
  writes : cl.fd.writes.length ≤ later.fd.writes.length + packetSizeMax.toNat
  memory : ∀ a, a < packetBuffer → later.memory a = cl.memory a

theorem flushPrepares (ready : Ready cl current) (enough : packetSizeMax.toNat ≤ cl.fd.writes.length) :
    ∃ flushed, flushBuffer { cl with writeMutex := true } = .ok flushed ∧ Prepared cl (unlockWrite flushed) current := by
  obtain ⟨seen, receiving⟩ := ready.receiving
  have locked : Receiving { cl with writeMutex := true } seen := receiving.withMemory rfl (.refl _ _)
  have small : (packetSizeMax.toNat : Int) = packetSizeMax := rfl
  have size := locked.ring.sizeHigh
  have room : ({ cl with writeMutex := true } : OrazioClient).packetHandler.tx.size ≤ cl.fd.writes.length := by omega
  obtain ⟨flushed, returned, left⟩ := flushLoopReturns locked.ring room
  have done := flushLoopFlushed locked.ring returned
  have memory : flushed.memory = cl.memory := by rw [done.only]
  refine ⟨flushed, returned, ⟨⟨seen, (done.receiving locked).withMemory rfl (.refl _ _)⟩, ?_, rfl, ?_, ?_⟩, ?_, ?_, ?_⟩
  · have hunting : flushed.packetHandler.rxFn = .rxAA := by rw [done.transmit.same]; exact ready.hunting
    exact hunting
  · have free : flushed.readMutex = false := by rw [done.only]; exact ready.readFree
    exact free
  · have current' : load16 flushed.memory (endEpoch + 2) = current := by rw [memory]; exact ready.current
    exact current'
  · have reads : flushed.fd.reads = cl.fd.reads := by rw [done.only]
    exact reads
  · have bound : cl.fd.writes.length ≤ flushed.fd.writes.length + packetSizeMax.toNat := by omega
    exact bound
  · have same (a : Addr) : flushed.memory a = cl.memory a := congrFun memory a
    exact fun a _ => same a

/- The deferred drive control packet is sent, or refused. -/
theorem controlPrepares (prepared : Prepared cl (unlockWrite next) current) :
    Prepared cl (unlockWrite (enqueuePacket next driveControlPacket).2) current := by
  obtain ⟨seen, unlocked⟩ := prepared.ready.receiving
  have receiving : Receiving next seen := unlocked.withMemory rfl (.refl _ _)
  have sent := enqueuePacketEnqueued driveControlPacket receiving.ring
  have after := sent.receiving receiving (Nat.le_refl _)
  have below : ∀ a, a < packetBuffer → (enqueuePacket next driveControlPacket).2.memory a = next.memory a := by
    intro a low
    rcases sent.memory with same | written
    · rw [same]
    · rw [written]
      have written := (SameBelow.refl driveControlPacket next.memory).store16 (Nat.le_add_right _ 2) (next.globalSeq + 1)
      exact written a (Nat.lt_of_lt_of_le low (Nat.le_add_right _ _))
  generalize (enqueuePacket next driveControlPacket).2 = later at sent after below
  refine ⟨⟨⟨seen, after.withMemory rfl (.refl _ _)⟩, ?_, rfl, ?_, ?_⟩, ?_, ?_, ?_⟩
  · have hunting : later.packetHandler.rxFn = .rxAA := by rw [sent.transmit.same]; exact prepared.ready.hunting
    exact hunting
  · have free : later.readMutex = false := by rw [sent.only]; exact prepared.ready.readFree
    exact free
  · exact (load16Congr below endOfEpoch.numberBelow).trans prepared.ready.current
  · have reads : later.fd.reads = next.fd.reads := by rw [sent.only]
    exact reads.trans prepared.reads
  · have writes : later.fd.writes = next.fd.writes := by rw [sent.only]
    have bound : cl.fd.writes.length ≤ later.fd.writes.length + packetSizeMax.toNat := by
      rw [writes]
      exact prepared.writes
    exact bound
  · exact fun a low => (below a low).trans (prepared.memory a low)

theorem framedLength (seq : PacketSeq) (packets : List EpochPacket) : packets.length ≤ (framed seq packets).length := by
  induction packets with
  | nil => exact Nat.zero_le _
  | cons p rest ih =>
    rw [framed, List.flatMap_cons, List.length_append, List.length_cons, frameLength]
    have := ih
    rw [framed] at this
    omega

/- A cycle of `sync` ends at the end of the next epoch. -/
theorem cycleTakes (e : Epoch) (ready : Ready cl current) (new : current ≠ seq)
    (enough : packetSizeMax.toNat ≤ cl.fd.writes.length) (reads : cl.fd.reads = onLine (framed seq e.all) ++ more) :
    ∃ later, (∀ cycles, syncCycles cl (cycles + 1) = syncCycles later cycles) ∧ Ready later seq ∧ later.fd.reads = more ∧
      cl.fd.writes.length ≤ later.fd.writes.length + packetSizeMax.toNat ∧
      ∀ a, a < packetBuffer → later.memory a = deposited seq e.all cl.memory a := by
  obtain ⟨flushed, flush, prepared⟩ := flushPrepares ready enough
  let sent := if load16 flushed.memory (driveControlPacket + 2) ≠ 0 then (enqueuePacket flushed driveControlPacket).2 else flushed
  have here : Prepared cl (unlockWrite sent) current := by
    by_cases control : load16 flushed.memory (driveControlPacket + 2) ≠ 0
    · simp only [sent, if_pos control]
      exact controlPrepares prepared
    · simp only [sent, if_neg control]
      exact prepared
  have room : e.packets.length < (unlockWrite sent).fd.reads.length + 1 := by
    have counted := framedLength seq e.all
    have packets : e.packets.length ≤ e.all.length := by
      rw [Epoch.all, List.length_append]
      omega
    rw [here.reads, reads, List.length_append, onLine, List.length_map]
    omega
  obtain ⟨later, await, taken⟩ := awaitEpochTakes e.packets _ e.ordinary here.ready new room (here.reads.trans reads)
  have number : load16 later.memory (endEpoch + 2) = seq :=
    (load16Congr taken.memory endOfEpoch.numberBelow).trans
      (depositedStamped e.all (Or.inl (List.mem_append_right _ List.mem_cons_self)))
  refine ⟨later, fun cycles => ?_, ⟨⟨[], taken.receiving⟩, taken.hunting, taken.writeMutex, taken.readFree, number⟩,
    taken.reads, ?_, fun a below => ?_⟩
  · rw [syncCycles, bindOk (lockWriteOk ready.writeFree), bindOk flush]
    have current' : load16 (unlockWrite sent).memory (endEpoch + 2) = current := here.ready.current
    rw [← current'] at await
    exact bindOk await
  · rw [taken.writes]
    exact here.writes
  · exact (taken.memory a below).trans (depositedCongr e.all here.memory a below)

end Cycle

/-! The whole call. -/

/- `later` is the client after `k` epochs, with `left` more to come: it has read those and nothing else. -/
structure Snapshot (cl later : OrazioClient) (epochs : Nat → Epoch) (seq : PacketSeq) (k left : Nat)
    (rest : List ReadOutcome) : Prop where
  reads : later.fd.reads = onLine (emitted (fun i => epochs (i + k)) (seq + UInt16.ofNat k) left) ++ rest
  stored : ∀ a, a < packetBuffer → later.memory a = stored epochs seq cl.memory k a
  stamped : ∀ j, k = j + 1 → load16 later.memory (endEpoch + 2) = seq + UInt16.ofNat j ∧
    ∀ p ∈ (epochs j).packets, load16 later.memory (p.place + 2) = load16 later.memory (endEpoch + 2)

theorem snapshot {cl later : OrazioClient} {epochs : Nat → Epoch} {seq : PacketSeq} {k left : Nat} {rest : List ReadOutcome}
    (reads : later.fd.reads = onLine (emitted (fun i => epochs (i + k)) (seq + UInt16.ofNat k) left) ++ rest)
    (memory : ∀ a, a < packetBuffer → later.memory a = stored epochs seq cl.memory k a) :
    Snapshot cl later epochs seq k left rest := by
  refine ⟨reads, memory, ?_⟩
  rintro j rfl
  have number (p : EpochPacket) (member : p ∈ (epochs j).all) :
      load16 later.memory (p.place + 2) = seq + UInt16.ofNat j :=
    (load16Congr memory p.numberBelow).trans (storedStamped epochs j member)
  have last := number endOfEpoch (List.mem_append_right _ List.mem_cons_self)
  exact ⟨last, fun p member => (number p (List.mem_append_left _ member)).trans last.symm⟩

theorem cyclesTake (n : Nat) {cl : OrazioClient} {current : PacketSeq} (epochs : Nat → Epoch) (rest : List ReadOutcome)
    (ready : Ready cl current) (line : cl.fd.reads = onLine (emitted epochs (current + 1) n) ++ rest)
    (accepts : n * packetSizeMax.toNat ≤ cl.fd.writes.length) :
    ∃ states : Nat → OrazioClient, ∀ k, k ≤ n →
      syncCycles cl k = .ok (states k) ∧ Snapshot cl (states k) epochs (current + 1) k (n - k) rest := by
  induction n generalizing cl current epochs with
  | zero =>
    refine ⟨fun _ => cl, fun k none => ?_⟩
    obtain rfl := Nat.le_zero.mp none
    exact ⟨rfl, snapshot line fun _ _ => rfl⟩
  | succ n ih =>
    rw [emitted, onLineAppend, List.append_assoc] at line
    have new : current ≠ current + 1 := by simp
    obtain ⟨next, goes, readyNext, left, writes, memory⟩ := cycleTakes (epochs 0) ready new
      (Nat.le_trans (Nat.le_mul_of_pos_left _ (Nat.succ_pos n)) accepts) line
    obtain ⟨states, follow⟩ := ih (fun i => epochs (i + 1)) readyNext left (by rw [Nat.succ_mul] at accepts; omega)
    refine ⟨fun k => if k = 0 then cl else states (k - 1), fun k low => ?_⟩
    cases k with
    | zero =>
      refine ⟨rfl, snapshot ?_ fun _ _ => rfl⟩
      have first : current + 1 + UInt16.ofNat 0 = current + 1 := UInt16.add_zero _
      rw [first, Nat.sub_zero, emitted, onLineAppend, List.append_assoc]
      exact line
    | succ k =>
      obtain ⟨returned, after⟩ := follow k (Nat.le_of_succ_le_succ low)
      refine ⟨(goes k).trans returned, snapshot ?_ fun a below => ?_⟩
      · rw [← nextNumber, Nat.succ_sub_succ]
        exact after.reads
      · exact (after.stored a below).trans (storedCongr _ k memory a below)

/- From any client reached between two epochs, `sync` reads exactly the epochs asked for, and after
each cycle the packets kept are those of the epochs read so far. -/
theorem syncTakesEpochs (blank : PacketHandler ClientOp) (memory : Memory) (fd : Serial) (calls : List Call)
    (foreign : ∀ c ∈ calls, Foreign c) (cl : OrazioClient) (reached : perform (init blank memory fd) calls = .ok cl)
    (released : Released cl) (hunting : cl.packetHandler.rxFn = .rxAA) (previous : PacketSeq)
    (boundary : load16 cl.memory (endEpoch + 2) = previous) (epochs : Nat → Epoch) (cycles : Int) (rest : List ReadOutcome)
    (line : cl.fd.reads = onLine (emitted epochs (previous + 1) cycles.toNat) ++ rest)
    (accepts : cycles.toNat * packetSizeMax.toNat ≤ cl.fd.writes.length) :
    ∃ states : Nat → OrazioClient, sync cl cycles = .ok (.success, states cycles.toNat) ∧
      ∀ k, k ≤ cycles.toNat → syncCycles cl k = .ok (states k) ∧
        Snapshot cl (states k) epochs (previous + 1) k (cycles.toNat - k) rest := by
  have receiving := (performSound foreign (initSound blank memory fd)).returned reached
  obtain ⟨states, each⟩ := cyclesTake cycles.toNat epochs rest
    ⟨receiving, hunting, released.write, released.read, boundary⟩ line accepts
  refine ⟨states, ?_, each⟩
  rw [sync, bindOk (each _ (Nat.le_refl _)).1]

def status : EpochPacket :=
  ⟨⟨systemStatusPacketId, sizeofSystemStatusPacket, false, systemStatus⟩, List.replicate 23 7, by decide, by decide, by decide⟩

def secondJoint : EpochPacket :=
  ⟨⟨jointStatusPacketId, sizeofJointStatusPacket, true, jointStatus⟩, 1 :: List.replicate 11 9, by decide, by decide,
    by decide⟩

/- The joints report in every other epoch. -/
def alternating (k : Nat) : Epoch :=
  ⟨if k % 2 = 0 then [status] else [status, secondJoint], by
    intro p member
    split at member
    · rw [List.mem_singleton.mp member]
      decide
    · rcases List.mem_cons.mp member with rfl | joint
      · decide
      · rw [List.mem_singleton.mp joint]
        decide⟩

def listening : OrazioClient :=
  init (blankHandler ClientOp) (fun _ => 0) ⟨onLine (emitted alternating 1 2), List.replicate 508 1, []⟩

theorem twoEpochsTaken : ∃ last, sync listening 2 = .ok (.success, last) ∧ last.fd.reads = [] ∧
    load16 last.memory (endEpoch + 2) = 2 ∧ load16 last.memory (secondJoint.place + 2) = 2 := by
  have accepts : (2 : Int).toNat * packetSizeMax.toNat ≤ (List.replicate 508 (1 : Int)).length := by
    rw [List.length_replicate]
    decide
  obtain ⟨states, returned, each⟩ := syncTakesEpochs (blankHandler ClientOp) (fun _ => 0) _ [] (by simp) listening rfl
    ⟨rfl, rfl⟩ rfl 0 (by decide +kernel) alternating 2 [] (List.append_nil _).symm accepts
  obtain ⟨-, after⟩ := each 2 (Nat.le_refl _)
  obtain ⟨number, numbered⟩ := after.stamped 1 rfl
  have joint : secondJoint ∈ (alternating 1).packets := List.mem_cons_of_mem status List.mem_cons_self
  exact ⟨_, returned, after.reads, number, (numbered secondJoint joint).trans number⟩

end OrazioLogger.OrazioClient
