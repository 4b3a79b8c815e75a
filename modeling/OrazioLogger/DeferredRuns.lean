import OrazioLogger.DeferredInstallation
import OrazioLogger.ReceiverSoundness

/-! A deferred handler under any interleaving of received bytes with processing:
the queues stay in step, and what arrives is executed once, in order. -/
namespace OrazioLogger.DeferredPacketHandler
open ByteMemory RingBuffer PacketHandler

variable {A τ : Type}

inductive Operation where
  | rx (c : UInt8) | processPending
  deriving DecidableEq, Repr

/- A packet as it was when it entered `pending_packets`. -/
structure Arrival where
  type : PacketType
  packet : Addr
  bytes : List UInt8
  deriving DecidableEq, Repr

def arrival (memory : Memory) (p : Addr) : Arrival := ⟨memory p, p, packetBytes memory p⟩

structure Run (A τ : Type) where
  machine : DeferredPacketHandler A τ
  arrivals : List Arrival
  executed : List (ActionCall A)

def perform (act : A → Addr → Surroundings τ → Surroundings τ) (r : Run A τ) : Operation → Run A τ
  | .rx c =>
    let m := (rxByte r.machine c).2
    let new := m.queue.pendingPackets.drop r.machine.queue.pendingPackets.length
    { r with machine := m, arrivals := r.arrivals ++ new.map (arrival m.outside.memory) }
  | .processPending =>
    let (m, calls) := processPendingPackets act r.machine
    { r with machine := m, executed := r.executed ++ calls }

def performAll (act : A → Addr → Surroundings τ → Surroundings τ) (r : Run A τ) : List Operation → Run A τ
  | [] => r
  | operation :: rest => performAll act (perform act r operation) rest

theorem performAllAppend (act : A → Addr → Surroundings τ → Surroundings τ) (r : Run A τ) (first later : List Operation) :
    performAll act r (first ++ later) = performAll act (performAll act r first) later := by
  induction first generalizing r with
  | nil => rfl
  | cons operation rest ih => exact ih _

def begin (m : DeferredPacketHandler A τ) : Run A τ := ⟨m,[],[]⟩

def Operation.byte : Operation → Option UInt8
  | .rx c => some c
  | .processPending => none

def Entry.arrival (e : Entry) : Arrival := ⟨e.type,e.packet,e.bytes⟩

/- The action an arrival is owed, with the packet and the bytes it must see. -/
def owed (installs : List (Install A)) (a : Arrival) : Option (A × Addr × List UInt8) :=
  ((installs.find? fun i => i.type = a.type).bind Install.action).map fun action => (action, a.packet, a.bytes)

/- A run explained: `handled` are the packets processed so far, `entries` those
pending, `segments` their frames on the line and `gap ++ seen` what is left over. -/
structure Explained (L : Layout A) (fed : List UInt8) (r : Run A τ) (handled entries : List Entry)
    (segments : List Segment) (gap seen : List UInt8) : Prop where
  steady : Steady L r.machine entries seen
  arrived : r.arrivals = (handled ++ entries).map Entry.arrival
  onTheLine : fed = segments.flatMap Segment.bytes ++ (gap ++ seen)
  bodies : segments.map Segment.body = (handled ++ entries).map Entry.bytes
  known : ∀ e ∈ handled, L.known e.type
  executed : r.executed.map ActionCall.made = handled.filterMap L.due

section Steps
variable {L : Layout A} {act : A → Addr → Surroundings τ → Surroundings τ} {fed : List UInt8} {r : Run A τ}
  {handled entries : List Entry} {segments : List Segment} {gap seen : List UInt8}

theorem arrivalHeld {memory : Memory} {e : Entry} (held : Held L memory e) :
    arrival memory e.packet = e.arrival := by
  rw [arrival, held.typed, held.bytes]
  rfl

theorem rxExplained (act : A → Addr → Surroundings τ → Surroundings τ) (sound : L.Sound)
    (x : Explained L fed r handled entries segments gap seen) (c : UInt8) :
    ∃ later more rest next, Explained L (fed ++ [c]) (perform act r (.rx c)) handled later more rest next ∧
      Moves entries seen c later next := by
  obtain ⟨later, next, steady, moves⟩ := rxByteSteady sound x.steady c
  have before : r.machine.queue.pendingPackets.length = entries.length := by rw [x.steady.queued, List.length_map]
  have new : (perform act r (.rx c)).arrivals = r.arrivals ++ (later.drop entries.length).map Entry.arrival := by
    simp only [perform, steady.queued, before, ← List.map_drop, List.map_map]
    congr 1
    refine List.map_congr_left fun e member => ?_
    exact arrivalHeld (steady.consistent.held e (List.mem_of_mem_drop member))
  cases moves with
  | starts =>
    refine ⟨entries, segments, gap ++ (seen ++ [c]), [], ⟨steady, ?_, ?_, x.bodies, x.known, x.executed⟩, .starts⟩
    · simpa [x.arrived] using new
    · simp [x.onTheLine]
  | grows =>
    refine ⟨entries, segments, gap, seen ++ [c], ⟨steady, ?_, ?_, x.bodies, x.known, x.executed⟩, .grows⟩
    · simpa [x.arrived] using new
    · simp [x.onTheLine]
  | @queues e whole =>
    refine ⟨entries ++ [e], segments ++ [⟨gap, e.bytes⟩], [], [], ⟨steady, ?_, ?_, ?_, x.known, x.executed⟩,
      .queues whole⟩
    · simpa [x.arrived] using new
    · simp [x.onTheLine, Segment.bytes, ← whole]
    · simp [x.bodies]

theorem processExplained (sound : L.Sound) (x : Explained L fed r handled entries segments gap seen)
    (within : LoopWithin (Spares L) act r.machine r.machine.queue.pendingPackets) :
    Explained L fed (perform act r .processPending) (handled ++ entries) [] segments gap seen := by
  obtain ⟨steady, made⟩ := processSteady sound x.steady within
  refine ⟨steady, by simpa [perform] using x.arrived, x.onTheLine, by simpa using x.bodies, ?_, ?_⟩
  · intro e member
    rcases List.mem_append.mp member with old | new
    · exact x.known e old
    · exact (x.steady.consistent.held e new).placed.known
  · simp only [perform, List.map_append, List.filterMap_append, x.executed, made]

theorem performAllExplained (sound : L.Sound) (spares : ∀ a p o, Spares L o (act a p o)) (operations : List Operation)
    (x : Explained L fed r handled entries segments gap seen) :
    ∃ handled' later more rest next,
      Explained L (fed ++ operations.filterMap Operation.byte) (performAll act r operations) handled' later more rest next := by
  induction operations generalizing r fed handled entries segments gap seen with
  | nil => exact ⟨handled, entries, segments, gap, seen, by simpa [performAll] using x⟩
  | cons operation rest ih =>
    cases operation with
    | rx c =>
      obtain ⟨later, more, gap', next, y, -⟩ := rxExplained act sound x c
      simpa [Operation.byte, performAll] using ih y
    | processPending =>
      rw [List.filterMap_cons_none rfl]
      exact ih (processExplained sound x (loopWithin spares _ _))

end Steps

/- What must hold after every operation. The pending packets of a type are read
off `pending_packets` itself. -/
structure Orderly (installs : List (Install A)) (fed : List UInt8) (r : Run A τ) : Prop where
  asserted : r.machine.queue.assertFailed = false
  few : r.machine.queue.pendingPackets.length ≤ pendingPacketsMax
  count : ∀ t, ((r.machine.queue.pendingPackets.filter fun p => r.machine.outside.memory p = t).length : Int) =
    (r.machine.queue.packetInfos t).packetBuffersIdx.size
  ring : ∀ t, (r.machine.queue.pendingPackets.filter fun p => r.machine.outside.memory p = t).map some =
    (slots (r.machine.queue.packetInfos t).packetBuffersMax (r.machine.queue.packetInfos t).packetBuffersIdx).map
      (r.machine.queue.packetInfos t).packetBuffers
  apart : r.machine.outside.baseHandler.rxFn = .rxPayload ∨ r.machine.outside.baseHandler.rxFn = .rxChecksum →
    ∃ b, r.machine.outside.baseHandler.rxCurrentPacket = some b ∧ b ∉ r.machine.queue.pendingPackets
  arrived : ∃ (segments : List Segment) (tail : List UInt8), fed = segments.flatMap Segment.bytes ++ tail ∧
    segments.map Segment.body = r.arrivals.map Arrival.bytes
  executed : ∃ handled, r.arrivals = handled ++ r.machine.queue.pendingPackets.map (arrival r.machine.outside.memory) ∧
    r.executed.map ActionCall.made = handled.filterMap (owed installs)

section Orderly
variable {L : Layout A} {m : DeferredPacketHandler A τ} {entries : List Entry} {seen : List UInt8}

theorem Steady.pendingOf (steady : Steady L m entries seen) (t : PacketType) :
    (m.queue.pendingPackets.filter fun p => m.outside.memory p = t) =
      (entries.filter fun e => e.type = t).map Entry.packet := by
  rw [steady.queued, List.filter_map]
  congr 1
  refine List.filter_congr fun e member => ?_
  simp only [Function.comp_apply, (steady.consistent.held e member).typed]

theorem Steady.slotsOf (steady : Steady L m entries seen) (t : PacketType) :
    (entries.filter fun e => e.type = t).map Entry.slot =
      slots (m.queue.packetInfos t).packetBuffersMax (m.idx t) ∧
    (((entries.filter fun e => e.type = t).length : Nat) : Int) = (m.idx t).size := by
  rw [steady.consistent.static t]
  by_cases known : L.known t
  · have order := steady.consistent.order t known
    refine ⟨order, ?_⟩
    rw [← slotsLength (steady.consistent.rings t known), ← order, List.length_map]
  · have none : (entries.filter fun e => e.type = t) = [] := by
      refine List.filter_eq_nil_iff.mpr fun e member => ?_
      have placed := (steady.consistent.held e member).placed.known
      simp only [decide_eq_true_eq]
      rintro rfl
      exact known placed
    rw [none, steady.consistent.idle t known]
    exact ⟨rfl, rfl⟩

theorem Steady.current (sound : L.Sound) (steady : Steady L m entries seen)
    (busy : m.outside.baseHandler.rxFn = .rxPayload ∨ m.outside.baseHandler.rxFn = .rxChecksum) :
    ∃ b, m.outside.baseHandler.rxCurrentPacket = some b ∧ b ∉ m.queue.pendingPackets := by
  have flight : ∃ t b, m.outside.baseHandler.rxCurrentPacket = some b ∧
      L.SlotAt t (m.idx t).stop b ∧ (m.idx t).size < (L.infos t).packetBuffersMax := by
    have inFlight := steady.receiving.inFlight
    cases steady.receiving.reading with
    | hunting fn => simp [fn] at busy
    | preamble fn => simp [fn] at busy
    | synced fn => simp [fn] at busy
    | typed fn => simp [fn] at busy
    | payload => exact ⟨_, inFlight⟩
    | complete => exact ⟨_, inFlight⟩
  obtain ⟨t, b, packet, slot, room⟩ := flight
  refine ⟨b, packet, fun pending => ?_⟩
  rw [steady.queued] at pending
  obtain ⟨e, member, rfl⟩ := List.mem_map.mp pending
  have apart := steady.consistent.free sound slot room e member
  have big := (sound.sized t slot.known).1
  have bigEntry := (sound.sized e.type (steady.consistent.held e member).placed.known).1
  unfold ByteMemory.Disjoint at apart
  omega

end Orderly

theorem owedDue {outside : Surroundings τ} {installs : List (Install A)} (ok : Installable installs) {e : Entry}
    (known : (layout outside installs).known e.type) :
    owed installs e.arrival = (layout outside installs).due e := by
  obtain ⟨i, member, type, info⟩ := known
  have here : (layout outside installs).infos e.type = i.info := info
  have found : (installs.find? fun j => j.type = e.arrival.type) = some i := by
    cases search : installs.find? fun j => j.type = e.arrival.type with
    | none =>
      have absent : i.type ≠ e.arrival.type := by simpa using List.find?_eq_none.mp search i member
      exact absurd type absent
    | some j =>
      have named : j.type = e.arrival.type := by simpa using List.find?_some search
      rw [List.inj_on_of_nodup_map ok.once (List.mem_of_find?_eq_some search) member (named.trans type.symm)]
  rw [owed, found, Layout.due, here]
  rfl

theorem explainedOrderly {outside : Surroundings τ} {installs : List (Install A)} (ok : Installable installs)
    {fed : List UInt8} {r : Run A τ} {handled entries : List Entry} {segments : List Segment} {gap seen : List UInt8}
    (x : Explained (layout outside installs) fed r handled entries segments gap seen) : Orderly installs fed r := by
  have steady := x.steady
  have sound : (layout outside installs).Sound := layoutSound ok
  refine ⟨steady.consistent.asserted, ?_, fun t => ?_, fun t => ?_, steady.current sound, ?_, ?_⟩
  · rw [steady.queued, List.length_map]
    exact steady.few
  · rw [steady.pendingOf, List.length_map]
    exact (steady.slotsOf t).2
  · rw [steady.pendingOf, ← idx, ← (steady.slotsOf t).1, List.map_map, List.map_map]
    refine List.map_congr_left fun e member => ?_
    obtain ⟨inside, type⟩ := List.mem_filter.mp member
    obtain rfl : e.type = t := by simpa using type
    rw [steady.consistent.static e.type]
    exact (steady.consistent.held e inside).placed.buffer.symm
  · exact ⟨segments, gap ++ seen, x.onTheLine, by rw [x.bodies, x.arrived, List.map_map]; rfl⟩
  · refine ⟨handled.map Entry.arrival, ?_, ?_⟩
    · rw [x.arrived, List.map_append, steady.queued, List.map_map]
      congr 1
      exact List.map_congr_left fun e member => (arrivalHeld (steady.consistent.held e member)).symm
    · rw [x.executed, List.filterMap_map]
      exact List.filterMap_congr fun e member => (owedDue ok (x.known e member)).symm

theorem beginExplained {outside : Surroundings τ} {installs : List (Install A)} (ok : Installable installs) :
    Explained (layout outside installs) [] (begin (setUp outside installs)) [] [] [] [] [] :=
  ⟨setUpSteady ok, rfl, rfl, rfl, by simp, rfl⟩

theorem runOrderly (outside : Surroundings τ) {installs : List (Install A)} (ok : Installable installs)
    (act : A → Addr → Surroundings τ → Surroundings τ) (harmless : Harmless installs act) (operations : List Operation) :
    Orderly installs (operations.filterMap Operation.byte) (performAll act (begin (setUp outside installs)) operations) := by
  obtain ⟨_, _, _, _, _, x⟩ := performAllExplained (layoutSound ok) (fun a p o => (harmless a p o).spares) operations
    (beginExplained ok)
  exact explainedOrderly ok x

/- What a call of `processPendingPackets` settles: nothing stays pending, and whatever arrived
before it has had its action executed, once and in the order of arrival. -/
structure Settled (installs : List (Install A)) (before after : Run A τ) : Prop where
  emptied : after.machine.queue.pendingPackets = []
  arrivals : after.arrivals = before.arrivals
  executed : after.executed.map ActionCall.made = before.arrivals.filterMap (owed installs)

theorem processSettled (outside : Surroundings τ) {installs : List (Install A)} (ok : Installable installs)
    (act : A → Addr → Surroundings τ → Surroundings τ) (harmless : Harmless installs act) (earlier : List Operation) :
    Settled installs (performAll act (begin (setUp outside installs)) earlier)
      (performAll act (begin (setUp outside installs)) (earlier ++ [.processPending])) := by
  have sound : (layout outside installs).Sound := layoutSound ok
  have spares : ∀ a p o, Spares (layout outside installs) o (act a p o) := fun a p o => (harmless a p o).spares
  obtain ⟨_, _, _, _, _, x⟩ := performAllExplained sound spares earlier (beginExplained ok)
  have y := processExplained sound x (loopWithin spares _ _)
  rw [performAllAppend]
  refine ⟨y.steady.queued, rfl, ?_⟩
  rw [x.arrived, List.filterMap_map]
  refine Eq.trans y.executed (List.filterMap_congr fun e member => ?_)
  exact (owedDue ok (y.known e (by simpa using member))).symm

theorem deferredQueueOrderly (outside : Surroundings τ) (installs : List (Install A)) (ok : Installable installs)
    (act : A → Addr → Surroundings τ → Surroundings τ) (harmless : Harmless installs act) (operations : List Operation) :
    Orderly installs (operations.filterMap Operation.byte) (performAll act (begin (setUp outside installs)) operations) ∧
    ∀ earlier, operations = earlier ++ [.processPending] →
      Settled installs (performAll act (begin (setUp outside installs)) earlier)
        (performAll act (begin (setUp outside installs)) operations) := by
  refine ⟨runOrderly outside ok act harmless operations, ?_⟩
  rintro earlier rfl
  exact processSettled outside ok act harmless earlier

/- Two types of two buffers each, processed in the middle of the second frame. -/
def twoInstalls : List (Install Unit) := [⟨1,4,100,2,some ()⟩, ⟨5,8,200,2,none⟩]

def idleSurroundings : Surroundings Unit := ⟨blankHandler _, fun _ => 0, ()⟩

theorem twoInstallsOrderly :
    let earlier := (frame [1,4,7,0] ++ [0xAA,0x55,1,4]).map Operation.rx
    let operations := earlier ++ [.processPending]
    let start := begin (setUp idleSurroundings twoInstalls)
    (Orderly twoInstalls (operations.filterMap Operation.byte) (performAll (fun _ _ o => o) start operations) ∧
      Settled twoInstalls (performAll (fun _ _ o => o) start earlier) (performAll (fun _ _ o => o) start operations)) ∧
    (performAll (fun _ _ o => o) start earlier).arrivals = [⟨1,100,[1,4,7,0]⟩] ∧
    (performAll (fun _ _ o => o) start operations).executed.map ActionCall.made = [((),100,[1,4,7,0])] := by
  intro earlier operations start
  have orderly := deferredQueueOrderly idleSurroundings twoInstalls ⟨by decide, by decide, by decide, by decide⟩
    (fun _ _ o => o) (fun _ _ o => ⟨.refl o.baseHandler, fun _ _ _ _ => rfl⟩) operations
  exact ⟨⟨orderly.1, orderly.2 earlier rfl⟩, by decide +kernel, by decide +kernel⟩

end OrazioLogger.DeferredPacketHandler
