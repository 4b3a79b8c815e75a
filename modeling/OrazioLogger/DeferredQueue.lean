import OrazioLogger.DeferredPacketHandler

/-! The two nested queues of a deferred handler: per type a ring of buffers, over
all types the pending packets. A frame being received occupies the slot behind
the pending ones of its type; this survives every byte and every processing. -/
namespace OrazioLogger.DeferredPacketHandler
open ByteMemory RingBuffer PacketHandler

variable {A τ : Type}

/- The installed types and their buffers, which do not move once installed. -/
structure Layout (A : Type) where
  infos : PacketType → DeferredPacketOps A
  known : PacketType → Prop

def Layout.size (L : Layout A) (t : PacketType) : Nat := (L.infos t).size.toNat

structure Layout.SlotAt (L : Layout A) (t : PacketType) (i : Int) (b : Addr) : Prop where
  known : L.known t
  low : 0 ≤ i
  high : i < (L.infos t).packetBuffersMax
  buffer : (L.infos t).packetBuffers i = some b

structure Layout.Sound (L : Layout A) : Prop where
  named : ∀ t, L.known t → (L.infos t).type = t
  sized : ∀ t, L.known t → 4 ≤ L.size t ∧ L.size t ≤ 254
  buffers : ∀ t i, L.known t → 0 ≤ i → i < (L.infos t).packetBuffersMax → ∃ b, L.SlotAt t i b
  apart : ∀ t i b u j d, L.SlotAt t i b → L.SlotAt u j d → t ≠ u ∨ i ≠ j → ByteMemory.Disjoint b (L.size t) d (L.size u)

def withIdx (info : DeferredPacketOps A) (indices : Indices) : DeferredPacketOps A :=
  { info with packetBuffersIdx := indices }

/- A pending packet: its type, its slot in that type's ring, and its bytes. -/
structure Entry where
  type : PacketType
  slot : Int
  packet : Addr
  bytes : List UInt8
  deriving DecidableEq, Repr

structure Held (L : Layout A) (memory : Memory) (e : Entry) : Prop where
  placed : L.SlotAt e.type e.slot e.packet
  stored : load memory e.packet (L.size e.type) = e.bytes
  typed : memory e.packet = e.type
  sized : memory (e.packet + 1) = (L.infos e.type).size

def idx (m : DeferredPacketHandler A τ) (t : PacketType) : Indices := (m.queue.packetInfos t).packetBuffersIdx

structure Consistent (L : Layout A) (m : DeferredPacketHandler A τ) (entries : List Entry) : Prop where
  static : ∀ t, m.queue.packetInfos t = withIdx (L.infos t) (m.idx t)
  asserted : m.queue.assertFailed = false
  installed : ∀ t p, m.outside.baseHandler.entry t = some p → p = t ∧ L.known t
  rings : ∀ t, L.known t → Valid (L.infos t).packetBuffersMax (m.idx t)
  held : ∀ e ∈ entries, Held L m.outside.memory e
  order : ∀ t, L.known t →
    (entries.filter fun e => e.type = t).map Entry.slot = slots (L.infos t).packetBuffersMax (m.idx t)
  idle : ∀ t, ¬ L.known t → m.idx t = ⟨0,0,0⟩

/- The slot of the frame being received lies behind the pending ones. -/
def InFlight (L : Layout A) (m : DeferredPacketHandler A τ) : List UInt8 → Prop
  | _ :: _ :: t :: _ :: _ => ∃ b, m.outside.baseHandler.rxCurrentPacket = some b ∧
      L.SlotAt t (m.idx t).stop b ∧ (m.idx t).size < (L.infos t).packetBuffersMax
  | _ => True

structure Receiving (L : Layout A) (m : DeferredPacketHandler A τ) (seen : List UInt8) : Prop where
  reading : Reading operation m.world m.outside.baseHandler seen
  inFlight : InFlight L m seen

theorem stableOperation : StableOps (operation (A := A)) where
  memory _ _ := ⟨fun _ => rfl, fun _ => rfl⟩
  buffer w p t s := by
    simp only [operation, initializeBuffer]
    split <;> exact ⟨fun _ => rfl, fun _ => rfl⟩
  receive w p f packet installed := by
    obtain rfl : onReceive = f := Option.some.inj installed
    simp only [onReceive]
    split
    · exact ⟨fun _ => rfl, fun _ => rfl⟩
    · refine ⟨fun q => ?_, fun q => ?_⟩ <;> by_cases same : q = w.memory packet <;>
        simp [operation, same]

variable {L : Layout A} {m : DeferredPacketHandler A τ} {entries : List Entry} {seen : List UInt8}

theorem Consistent.fixed (sound : L.Sound) (c : Consistent L m entries) :
    FixedSizes operation m.world m.outside.baseHandler := by
  intro t p found
  obtain ⟨rfl, known⟩ := c.installed t p found
  have static := c.static p
  have sized := sound.sized p known
  refine ⟨(L.infos p).size, ?_, ?_, sized.1, sized.2⟩
  · simp [operation, world, static, withIdx, sound.named p known]
  · simp [operation, world, static, withIdx]

theorem Consistent.sized (c : Consistent L m entries) {p t : PacketType} {s : PacketSize}
    (found : m.outside.baseHandler.entry t = some p) (named : Named operation m.world p t s) :
    L.size t = s.toNat := by
  obtain ⟨rfl, -⟩ := c.installed t p found
  have size := named.size
  simp only [operation, world, c.static p, withIdx] at size
  rw [Layout.size, size]

theorem Consistent.stop (sound : L.Sound) (c : Consistent L m entries) {t : PacketType} (known : L.known t) :
    ∃ b, L.SlotAt t (m.idx t).stop b :=
  sound.buffers t _ known (c.rings t known).stopLow (c.rings t known).stopHigh

/- While there is room, the slot next to be filled is apart from every pending one. -/
theorem Consistent.free (sound : L.Sound) (c : Consistent L m entries) {t : PacketType} {b : Addr}
    (slot : L.SlotAt t (m.idx t).stop b) (room : (m.idx t).size < (L.infos t).packetBuffersMax) :
    ∀ e ∈ entries, ByteMemory.Disjoint e.packet (L.size e.type) b (L.size t) := by
  intro e member
  have placed := (c.held e member).placed
  refine sound.apart _ _ _ _ _ _ placed slot ?_
  by_cases same : e.type = t
  · refine Or.inr fun equal => stopUnused (c.rings t slot.known) room ?_
    rw [← c.order t slot.known, ← equal]
    exact List.mem_map.mpr ⟨e, List.mem_filter.mpr ⟨member, by simpa using same⟩, rfl⟩
  · exact Or.inl same

/- Whoever leaves a packet's block alone leaves the packet held. -/
theorem Held.keep {memory later : Memory} {e : Entry} (held : Held L memory e) (sound : L.Sound)
    (same : ∀ x, Inside e.packet (L.size e.type) x → later x = memory x) : Held L later e := by
  have big := (sound.sized e.type held.placed.known).1
  exact ⟨held.placed, (loadCongr same).trans held.stored, (same _ ⟨le_refl _, by omega⟩).trans held.typed,
    (same _ ⟨by omega, by omega⟩).trans held.sized⟩

theorem Held.bytes {memory : Memory} {e : Entry} (held : Held L memory e) : packetBytes memory e.packet = e.bytes := by
  rw [packetBytes, held.sized, ← held.stored]
  rfl

/- Bytes written into the slot in flight leave the pending packets alone. -/
theorem Consistent.store (sound : L.Sound) (c : Consistent L m entries) {t : PacketType} {b x : Addr}
    (slot : L.SlotAt t (m.idx t).stop b) (room : (m.idx t).size < (L.infos t).packetBuffersMax)
    (inside : Inside b (L.size t) x) (value : UInt8) :
    Consistent L { m with outside := { m.outside with memory := store m.outside.memory x value } } entries :=
  { c with held := fun e member =>
      (c.held e member).keep sound fun _ here => storeOther value fun same =>
        disjointOutside (c.free sound slot room e member) inside (same ▸ here) }

theorem Consistent.handler (c : Consistent L m entries) {k : PacketHandler PacketType}
    (only : ReceiveOnly m.outside.baseHandler k) :
    Consistent L { m with outside := { m.outside with baseHandler := k } } entries :=
  { c with installed := fun t p found => c.installed t p (by rwa [← only.entry t]) }

/-! A byte. -/

theorem initializeBufferKeeps (type : PacketType) (size : PacketSize) (w : World (DeferredQueue A)) :
    (initializeBuffer type size w).2 = w := by
  simp only [initializeBuffer]
  split <;> rfl

theorem initializeBufferGrants {type : PacketType} {size : PacketSize} {w : World (DeferredQueue A)} {b : Addr}
    (granted : (initializeBuffer type size w).1 = some b) :
    (w.env.packetInfos type).packetBuffersIdx.size < (w.env.packetInfos type).packetBuffersMax ∧
    (w.env.packetInfos type).packetBuffers (w.env.packetInfos type).packetBuffersIdx.stop = some b := by
  by_cases full : (w.env.packetInfos type).packetBuffersIdx.size ≥ (w.env.packetInfos type).packetBuffersMax
  · simp [initializeBuffer, full] at granted
  · simp only [initializeBuffer, if_neg full] at granted
    exact ⟨not_le.mp full, granted⟩

/- A buffer is only granted from a ring with room, and it is the next slot. -/
theorem Consistent.granted (sound : L.Sound) (c : Consistent L m entries) {t : PacketType} {s : PacketSize}
    {b : Addr} (known : L.known t) (granted : (initializeBuffer t s m.world).1 = some b) :
    L.SlotAt t (m.idx t).stop b ∧ (m.idx t).size < (L.infos t).packetBuffersMax := by
  obtain ⟨d, slot⟩ := c.stop sound known
  obtain ⟨room, here⟩ := initializeBufferGrants granted
  simp only [world, c.static t, withIdx] at room here
  obtain rfl : d = b := Option.some.inj (slot.buffer.symm.trans here)
  exact ⟨slot, room⟩

theorem notInFlight {L : Layout A} {m : DeferredPacketHandler A τ} {seen : List UInt8} (early : seen.length < 4) :
    InFlight L m seen := by
  match seen, early with
  | [], _ => trivial
  | [_], _ => trivial
  | [_,_], _ => trivial
  | [_,_,_], _ => trivial

/- Changing the indices of one ring, with the entries changed to match. -/
theorem Consistent.reindex (c : Consistent L m entries) {t : PacketType} {indices : Indices} {later : List Entry}
    (named : L.known t) (valid : Valid (L.infos t).packetBuffersMax indices) (held : ∀ e ∈ later, Held L m.outside.memory e)
    (here : (later.filter fun e => e.type = t).map Entry.slot = slots (L.infos t).packetBuffersMax indices)
    (others : ∀ u, u ≠ t → (later.filter fun e => e.type = u) = entries.filter fun e => e.type = u)
    {queue : DeferredQueue A} (asserted : queue.assertFailed = false)
    (infos : queue.packetInfos = Function.update m.queue.packetInfos t (withIdx (L.infos t) indices)) :
    Consistent L { m with queue := queue } later where
  static u := by
    by_cases same : u = t
    · subst u; simp [idx, infos, withIdx]
    · simpa [idx, infos, same] using c.static u
  asserted := asserted
  installed := c.installed
  rings u known := by
    by_cases same : u = t
    · subst u; simpa [idx, infos, withIdx] using valid
    · simpa [idx, infos, same] using c.rings u known
  held := held
  order u known := by
    by_cases same : u = t
    · subst u; simpa [idx, infos, withIdx] using here
    · rw [others u same]
      simpa [idx, infos, same] using c.order u known
  idle u unknown := by
    have other : u ≠ t := by rintro rfl; exact unknown named
    simpa [idx, infos, other] using c.idle u unknown

theorem Consistent.queueing (c : Consistent L m entries) {b : Addr} {t : PacketType} {body : List UInt8}
    (slot : L.SlotAt t (m.idx t).stop b) (room : (m.idx t).size < (L.infos t).packetBuffersMax)
    (typed : m.outside.memory b = t) (sized : m.outside.memory (b + 1) = (L.infos t).size)
    (stored : load m.outside.memory b (L.size t) = body) {queue : DeferredQueue A} (asserted : queue.assertFailed = false)
    (infos : queue.packetInfos = Function.update m.queue.packetInfos t
      (withIdx (L.infos t) (push (L.infos t).packetBuffersMax (m.idx t)))) :
    Consistent L { m with queue := queue } (entries ++ [⟨t,(m.idx t).stop,b,body⟩]) := by
  have valid := c.rings t slot.known
  refine c.reindex slot.known (pushValid valid room) ?_ ?_ ?_ asserted infos
  · intro e member
    rcases List.mem_append.mp member with old | new
    · exact c.held e old
    · rw [List.mem_singleton.mp new]
      exact ⟨slot, stored, typed, sized⟩
  · rw [List.filter_append, List.map_append, c.order t slot.known, slotsPush valid]
    simp
  · intro u other
    simp [List.filter_append, Ne.symm other]

/- The packet just completed is queued, or dropped when the queue is full. -/
theorem onReceiveQueues (c : Consistent L m entries) {b : Addr} {t : PacketType}
    {body : List UInt8} (queued : m.queue.pendingPackets = entries.map Entry.packet)
    (slot : L.SlotAt t (m.idx t).stop b) (room : (m.idx t).size < (L.infos t).packetBuffersMax)
    (typed : m.outside.memory b = t) (sized : m.outside.memory (b + 1) = (L.infos t).size)
    (stored : load m.outside.memory b (L.size t) = body) :
    let v := (onReceive b m.world).2
    v.memory = m.outside.memory ∧ ∃ later, (later = entries ∨ later = entries ++ [⟨t,(m.idx t).stop,b,body⟩]) ∧
      later.length ≤ max entries.length pendingPacketsMax ∧
      v.env.pendingPackets = later.map Entry.packet ∧ Consistent L { m with queue := v.env } later := by
  have static := c.static t
  have agrees : (m.queue.packetInfos t).packetBuffers (m.queue.packetInfos t).packetBuffersIdx.stop = some b := by
    rw [static]; exact slot.buffer
  have count : m.queue.pendingPackets.length = entries.length := by rw [queued, List.length_map]
  have valid := c.rings t slot.known
  simp only [onReceive, world, typed, agrees, ne_eq, not_true_eq_false, decide_false, Bool.or_false, count]
  split
  · exact ⟨rfl, entries, Or.inl rfl, le_max_left _ _, queued, c⟩
  · refine ⟨rfl, entries ++ [⟨t,(m.idx t).stop,b,body⟩], Or.inr rfl, ?_, by simp [queued], ?_⟩
    · simp only [List.length_append, List.length_singleton]; omega
    · have pushes : bufferPut (m.queue.packetInfos t).packetBuffersMax (m.queue.packetInfos t).packetBuffersIdx =
          push (L.infos t).packetBuffersMax (m.idx t) := by
        rw [static]; exact bufferPutPushes valid
      rw [pushes]
      exact c.queueing slot room typed sized stored c.asserted (by rw [static]; rfl)

/- Everything that holds between two operations, with the pending packets and
the bytes of the frame in progress spelt out. -/
structure Steady (L : Layout A) (m : DeferredPacketHandler A τ) (entries : List Entry) (seen : List UInt8) :
    Prop where
  consistent : Consistent L m entries
  queued : m.queue.pendingPackets = entries.map Entry.packet
  few : entries.length ≤ pendingPacketsMax
  receiving : Receiving L m seen

/- What a byte can do to the pending packets and to the frame in progress. -/
inductive Moves (entries : List Entry) (seen : List UInt8) (c : UInt8) : List Entry → List UInt8 → Prop where
  | starts : Moves entries seen c entries []
  | grows : Moves entries seen c entries (seen ++ [c])
  | queues {e : Entry} (whole : seen ++ [c] = frame e.bytes) : Moves entries seen c (entries ++ [e]) []

/- A buffer filled to the last byte holds a packet of its type. -/
theorem Consistent.filled (c : Consistent L m entries) {p t : PacketType} {s : PacketSize} {b : Addr}
    {rest : List UInt8} (found : m.outside.baseHandler.entry t = some p) (named : Named operation m.world p t s)
    (filling : Filling m.outside.baseHandler m.world p b (t :: s :: rest)) (full : rest.length + 2 = s.toNat) :
    load m.outside.memory b (L.size t) = t :: s :: rest ∧ m.outside.memory b = t ∧
      m.outside.memory (b + 1) = (L.infos t).size := by
  have size := c.sized found named
  have body : load m.outside.memory b (L.size t) = t :: s :: rest := by
    have stored := filling.stored
    simp only [List.length_cons] at stored
    rwa [size, ← full]
  obtain ⟨typed, second⟩ : m.outside.memory b = t ∧ m.outside.memory (b + 1) = s := by
    rw [size, ← full, loadCons, loadCons] at body
    exact ⟨(List.cons.inj body).1, (List.cons.inj (List.cons.inj body).2).1⟩
  exact ⟨body, typed, second.trans (UInt8.toNat_inj.mp size.symm)⟩

/- Only a frame that is complete reaches the queue. -/
inductive QueueMoves (m later : DeferredPacketHandler A τ) (status : PacketStatus) : Prop where
  | kept (same : later.queue = m.queue)
  | received (whole : status = .syncChecksum) (packet : Addr) (memory : Memory)
      (same : later.queue = (onReceive packet ⟨memory, m.queue⟩).2.env)

theorem rxByteQueue (m : DeferredPacketHandler A τ) (c : UInt8) :
    QueueMoves m (rxByte m c).2 (rxByte m c).1 := by
  unfold rxByte PacketHandler.rxByte
  cases m.outside.baseHandler.rxFn with
  | rxAA =>
    refine .kept ?_
    simp only [PacketHandler.rxAA]
    split <;> rfl
  | rx55 =>
    refine .kept ?_
    simp only [PacketHandler.rx55]
    split <;> rfl
  | rxType =>
    refine .kept ?_
    simp only [PacketHandler.rxType]
    split
    · split <;> rfl
    · rfl
  | rxSize =>
    refine .kept ?_
    simp only [PacketHandler.rxSize]
    split
    · rfl
    split
    · rfl
    simp only [operation, initializeBufferKeeps]
    split <;> rfl
  | rxPayload =>
    refine .kept ?_
    simp only [PacketHandler.rxPayload]
    split <;> split <;> rfl
  | rxChecksum =>
    simp only [PacketHandler.rxChecksumByte]
    split
    · split
      · exact .received rfl _ _ rfl
      · exact .kept rfl
    · exact .kept rfl

theorem rxByteSteady (sound : L.Sound) (steady : Steady L m entries seen) (c : UInt8) :
    ∃ later next, Steady L (rxByte m c).2 later next ∧ Moves entries seen c later next := by
  obtain ⟨consistent, queued, few, ⟨reading, inFlight⟩⟩ := steady
  obtain ⟨next, step⟩ := advance stableOperation (consistent.fixed sound) reading c
  have only := rxByteReceiveOnly operation m.outside.baseHandler m.world c
  have after := step.reading
  unfold rxByte
  generalize PacketHandler.rxByte operation m.outside.baseHandler m.world c = r at step only after
  cases step with
  | lost _ _ sameWorld _ =>
    obtain ⟨status, k, v, trace⟩ := r
    subst sameWorld
    exact ⟨entries, [], ⟨consistent.handler only, queued, few, ⟨after, trivial⟩⟩, .starts⟩
  | gained early =>
    exact ⟨entries, seen ++ [c], ⟨consistent.handler only, queued, few,
      ⟨after, notInFlight (by simp only [List.length_append, List.length_singleton]; omega)⟩⟩, .grows⟩
  | @refused p t s k named found full fn =>
    have same : ((operation m.world p).initializeBufferFn t c m.world).2 = m.world :=
      initializeBufferKeeps t c m.world
    simp only [same] at after ⊢
    exact ⟨entries, [], ⟨consistent.handler only, queued, few, ⟨after, trivial⟩⟩, .starts⟩
  | @granted p t s b k v named found buffer world filling reading =>
    obtain ⟨rfl, known⟩ := consistent.installed t p found
    obtain ⟨slot, room⟩ := consistent.granted (s := c) sound known buffer
    have same : ((operation m.world p).initializeBufferFn p c m.world).2 = m.world :=
      initializeBufferKeeps p c m.world
    have big := (sound.sized p known).1
    have first := consistent.store sound slot room (x := b) ⟨le_refl _, by omega⟩ p
    have second := first.store sound slot room (x := b + 1) ⟨by omega, by omega⟩ c
    rw [same] at world
    subst world
    exact ⟨entries, [0xAA,0x55,p,c], ⟨second.handler only, queued, few,
      ⟨after, b, filling.packet, slot, room⟩⟩, .grows⟩
  | @stored p t s b rest c status k v named found before room positive world filling reading =>
    obtain ⟨d, packet, slot, free⟩ := inFlight
    obtain rfl := Option.some.inj (packet.symm.trans before.packet)
    subst world
    have size := consistent.sized found named
    have stored := consistent.store sound slot free (x := d + (rest.length + 2)) ⟨by omega, by omega⟩ c
    exact ⟨entries, _, ⟨stored.handler only, queued, few, ⟨after, d, filling.packet, slot, free⟩⟩, .grows⟩
  | @delivered p t s b rest f named found filling full installed =>
    obtain ⟨d, packet, slot, free⟩ := inFlight
    obtain rfl := Option.some.inj (packet.symm.trans filling.packet)
    obtain rfl : onReceive = f := Option.some.inj installed
    obtain ⟨body, typed, sized⟩ := consistent.filled found named filling full
    obtain ⟨memory, later, grown, length, listed, kept⟩ := onReceiveQueues consistent queued slot free typed sized body
    simp only at after ⊢
    generalize (onReceive d m.world).2 = v at memory listed kept after
    obtain ⟨_, queue⟩ := v
    subst memory
    have bound : later.length ≤ pendingPacketsMax := length.trans (max_le few le_rfl)
    have steady := Steady.mk (kept.handler only) listed bound ⟨after, trivial⟩
    rcases grown with rfl | rfl
    · exact ⟨later, [], steady, .starts⟩
    · exact ⟨_, [], steady, .queues (by simp [frame])⟩
  | silent _ _ _ _ missing => simp [operation] at missing

/-! Processing. -/

/- Sending with the handler and changing the program's variables leaves its
receive side and the installed buffers alone. -/
structure Spares (L : Layout A) (before after : Surroundings τ) : Prop where
  handler : TransmitOnly before.baseHandler after.baseHandler
  buffers : ∀ t i b x, L.SlotAt t i b → Inside b (L.size t) x → after.memory x = before.memory x

/- Every action that `processLoop` runs stands in `R` to its surroundings. -/
def LoopWithin (R : Surroundings τ → Surroundings τ → Prop) (act : A → Addr → Surroundings τ → Surroundings τ) :
    DeferredPacketHandler A τ → List Addr → Prop
  | _, [] => True
  | m, p :: rest =>
    (∀ a, (m.queue.packetInfos (m.outside.memory p)).deferredActionFn = some a → R m.outside (act a p m.outside)) ∧
      LoopWithin R act (processPacket act m p).1 rest

theorem LoopWithin.imp {R S : Surroundings τ → Surroundings τ → Prop} {act : A → Addr → Surroundings τ → Surroundings τ}
    {m : DeferredPacketHandler A τ} {ps : List Addr} (within : LoopWithin R act m ps)
    (stronger : ∀ o later, R o later → S o later) : LoopWithin S act m ps := by
  induction ps generalizing m with
  | nil => trivial
  | cons p rest ih => exact ⟨fun a installed => stronger _ _ (within.1 a installed), ih within.2⟩

theorem loopWithin {R : Surroundings τ → Surroundings τ → Prop} {act : A → Addr → Surroundings τ → Surroundings τ}
    (always : ∀ a p o, R o (act a p o)) (m : DeferredPacketHandler A τ) (ps : List Addr) : LoopWithin R act m ps := by
  induction ps generalizing m with
  | nil => trivial
  | cons p rest ih => exact ⟨fun a _ => always a p m.outside, ih _⟩

/- The action an entry is owed, with the packet and bytes it must see. -/
def Layout.due (L : Layout A) (e : Entry) : Option (A × Addr × List UInt8) :=
  (L.infos e.type).deferredActionFn.map fun action => (action, e.packet, e.bytes)

/- A call as it was made: the bytes are those in the packet's buffer at the time. -/
def ActionCall.made (call : ActionCall A) : A × Addr × List UInt8 :=
  (call.action, call.packet, packetBytes call.memory call.packet)

theorem InFlight.keep {n : DeferredPacketHandler A τ} (flight : InFlight L m seen)
    (packet : n.outside.baseHandler.rxCurrentPacket = m.outside.baseHandler.rxCurrentPacket)
    (indices : ∀ t, (n.idx t).stop = (m.idx t).stop ∧ (n.idx t).size ≤ (m.idx t).size) : InFlight L n seen := by
  match seen, flight with
  | _ :: _ :: t :: _ :: _, ⟨b, current, slot, room⟩ =>
    exact ⟨b, packet.trans current, by rw [(indices t).1]; exact slot, lt_of_le_of_lt (indices t).2 room⟩
  | [], _ => trivial
  | [_], _ => trivial
  | [_,_], _ => trivial
  | [_,_,_], _ => trivial

theorem Receiving.size (c : Consistent L m entries) {x y t s : UInt8} {rest : List UInt8}
    (r : Receiving L m (x :: y :: t :: s :: rest)) : L.size t = s.toNat := by
  cases r.reading with
  | payload _ found named => exact c.sized found named
  | complete _ found named => exact c.sized found named

/- An action that spares them changes nothing the queue relies on. -/
theorem actionKeeps {after : Surroundings τ} (spares : Spares L m.outside after) (sound : L.Sound)
    (c : Consistent L m entries) (r : Receiving L m seen) :
    Consistent L { m with outside := after } entries ∧ Receiving L { m with outside := after } seen := by
  have only := spares.handler
  refine ⟨{ c with
      installed := fun t p found => c.installed t p (by rwa [← only.entry t])
      held := fun e member => (c.held e member).keep sound fun x inside =>
        spares.buffers _ _ _ x (c.held e member).placed inside }, ⟨?_, ?_⟩⟩
  · refine r.reading.keep only ⟨fun _ => rfl, fun _ => rfl⟩ fun b s x packet size inside => ?_
    match seen, size, r, r.inFlight with
    | _ :: _ :: t :: _ :: _, size, r, ⟨d, current, slot, _⟩ =>
      obtain rfl := Option.some.inj (current.symm.trans packet)
      obtain rfl := Option.some.inj size
      exact spares.buffers t _ d x slot (by rwa [r.size c])
  · refine r.inFlight.keep ?_ fun t => ⟨rfl, le_refl _⟩
    change after.baseHandler.rxCurrentPacket = _
    rw [only.same]

/- The first pending packet is the first of its own ring. -/
theorem Consistent.first {e : Entry} (c : Consistent L m (e :: entries)) :
    0 < (m.idx e.type).size ∧ e.slot = (m.idx e.type).start ∧
    (entries.filter fun d => d.type = e.type).map Entry.slot =
      slots (L.infos e.type).packetBuffersMax (pop (L.infos e.type).packetBuffersMax (m.idx e.type)) := by
  have known := (c.held e List.mem_cons_self).placed.known
  have valid := c.rings e.type known
  have order := c.order e.type known
  simp only [List.filter_cons, decide_true, if_true, List.map_cons] at order
  have some : 0 < (m.idx e.type).size := by
    have length := slotsLength valid
    rw [← order] at length
    simp only [List.length_cons] at length
    omega
  rw [slotsPop valid some] at order
  exact ⟨some, List.cons.inj order⟩

/- Taking the first packet off its ring. -/
theorem popKeeps {e : Entry} (c : Consistent L m (e :: entries)) (r : Receiving L m seen) {queue : DeferredQueue A}
    (asserted : queue.assertFailed = false)
    (infos : queue.packetInfos = Function.update m.queue.packetInfos e.type
      (withIdx (L.infos e.type) (pop (L.infos e.type).packetBuffersMax (m.idx e.type)))) :
    Consistent L { m with queue := queue } entries ∧ Receiving L { m with queue := queue } seen := by
  have known := (c.held e List.mem_cons_self).placed.known
  obtain ⟨some, -, rest⟩ := c.first
  refine ⟨?_, ?_, ?_⟩
  · exact c.reindex known (popValid (c.rings e.type known) some)
      (fun d member => c.held d (List.mem_cons_of_mem e member)) rest
      (fun u other => by simp [Ne.symm other]) asserted infos
  · refine r.reading.keep (.refl _) ⟨fun q => ?_, fun q => ?_⟩ fun _ _ _ _ _ _ => rfl
    all_goals
      by_cases same : q = e.type
      · subst q; simp [operation, world, infos, c.static e.type, withIdx]
      · simp [operation, world, infos, same]
  · refine r.inFlight.keep rfl fun t => ?_
    by_cases same : t = e.type
    · subst t; simp only [idx, infos, Function.update_self, withIdx, pop]; exact ⟨trivial, by omega⟩
    · simp [idx, infos, same]

theorem processPacketKeeps {act : A → Addr → Surroundings τ → Surroundings τ} (sound : L.Sound) {e : Entry}
    (c : Consistent L m (e :: entries)) (r : Receiving L m seen)
    (spares : ∀ a, (m.queue.packetInfos (m.outside.memory e.packet)).deferredActionFn = some a →
      Spares L m.outside (act a e.packet m.outside)) :
    let n := processPacket act m e.packet
    Consistent L n.1 entries ∧ Receiving L n.1 seen ∧ n.2.map ActionCall.made = (L.due e).toList := by
  have held := c.held e List.mem_cons_self
  have static := c.static e.type
  obtain ⟨-, slot, -⟩ := c.first
  have agrees : (m.queue.packetInfos e.type).packetBuffers (m.queue.packetInfos e.type).packetBuffersIdx.start =
      some e.packet := by
    rw [static, ← held.placed.buffer, slot]; rfl
  have pops : bufferGet (m.queue.packetInfos e.type).packetBuffersMax (m.queue.packetInfos e.type).packetBuffersIdx =
      pop (L.infos e.type).packetBuffersMax (m.idx e.type) := by
    rw [static]; exact bufferGetPops (c.rings e.type held.placed.known)
  have action : (m.queue.packetInfos e.type).deferredActionFn = (L.infos e.type).deferredActionFn := by
    rw [static]; rfl
  simp only [processPacket, held.typed, agrees, ne_eq, not_true_eq_false, decide_false, Bool.or_false, pops, action]
  cases due : (L.infos e.type).deferredActionFn with
  | none =>
    dsimp only
    refine and_assoc.mp ⟨popKeeps c r c.asserted ?_, by simp [Layout.due, due]⟩
    rw [static, withIdx, ← due]
    rfl
  | some a =>
    have spared : Spares L m.outside (act a e.packet m.outside) :=
      spares a (by rw [held.typed, action, due])
    obtain ⟨acted, receiving⟩ := actionKeeps spared sound c r
    dsimp only
    refine and_assoc.mp ⟨popKeeps acted receiving c.asserted ?_, ?_⟩
    · rw [static, withIdx, ← due]
      rfl
    · simp [Layout.due, ActionCall.made, due, held.bytes]

theorem processLoopKeeps {act : A → Addr → Surroundings τ → Surroundings τ} (sound : L.Sound)
    (c : Consistent L m entries) (r : Receiving L m seen)
    (within : LoopWithin (Spares L) act m (entries.map Entry.packet)) :
    let n := processLoop act m (entries.map Entry.packet)
    Consistent L n.1 [] ∧ Receiving L n.1 seen ∧ n.2.map ActionCall.made = entries.filterMap L.due := by
  induction entries generalizing m with
  | nil => exact ⟨c, r, rfl⟩
  | cons e rest ih =>
    obtain ⟨consistent, receiving, made⟩ := processPacketKeeps sound c r within.1
    obtain ⟨consistentAll, receivingAll, madeAll⟩ := ih consistent receiving within.2
    refine ⟨consistentAll, receivingAll, ?_⟩
    simp only [List.map_cons, processLoop, List.map_append, made, madeAll]
    cases due : L.due e <;> simp [due]

theorem processSteady {act : A → Addr → Surroundings τ → Surroundings τ} (sound : L.Sound)
    (steady : Steady L m entries seen) (within : LoopWithin (Spares L) act m m.queue.pendingPackets) :
    let n := processPendingPackets act m
    Steady L n.1 [] seen ∧ n.2.map ActionCall.made = entries.filterMap L.due := by
  obtain ⟨c, queued, few, r⟩ := steady
  obtain ⟨consistent, receiving, made⟩ := processLoopKeeps sound c r (queued ▸ within)
  simp only [processPendingPackets, queued]
  generalize processLoop act m (entries.map Entry.packet) = n at consistent receiving made
  refine ⟨⟨{ consistent with }, rfl, by simp, ⟨?_, receiving.inFlight.keep rfl fun t => ⟨rfl, le_refl _⟩⟩⟩, made⟩
  exact receiving.reading.keep (.refl _) ⟨fun _ => rfl, fun _ => rfl⟩ fun _ _ _ _ _ _ => rfl

end OrazioLogger.DeferredPacketHandler
