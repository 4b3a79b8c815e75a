import OrazioLogger.DeferredRuns

/-! The packets acknowledged with `SyncChecksum` between two calls of
`processPendingPackets` against the actions the second call executes. -/
namespace OrazioLogger.DroppedPackets
open ByteMemory PacketHandler DeferredPacketHandler

variable {A τ : Type}

def receive (m : DeferredPacketHandler A τ) : List UInt8 → List PacketStatus × DeferredPacketHandler A τ
  | [] => ([], m)
  | c :: rest =>
    let first := DeferredPacketHandler.rxByte m c
    let later := receive first.2 rest
    (first.1 :: later.1, later.2)

/- The byte is the checksum of a frame that is right. -/
def Completes (m : DeferredPacketHandler A τ) (c : UInt8) : Prop :=
  m.outside.baseHandler.rxFn = .rxChecksum ∧ c = m.outside.baseHandler.rxChecksum

/- The byte is the size of a packet for which its type has no buffer left. -/
def RingFull (m : DeferredPacketHandler A τ) (c : UInt8) : Prop :=
  m.outside.baseHandler.rxFn = .rxSize ∧ ∃ t, m.outside.baseHandler.rxCurrentOp = some t ∧
    (m.queue.packetInfos t).size = c ∧
    (m.queue.packetInfos t).packetBuffersMax ≤ (m.queue.packetInfos t).packetBuffersIdx.size

def Unqueueable (m : DeferredPacketHandler A τ) (c : UInt8) : Prop :=
  RingFull m c ∨
  Completes m c ∧ (DeferredPacketHandler.rxByte m c).2.queue.pendingPackets = m.queue.pendingPackets

def Reported (m : DeferredPacketHandler A τ) : List UInt8 → Prop
  | [] => True
  | c :: rest => (Unqueueable m c → (DeferredPacketHandler.rxByte m c).1.code < 0) ∧
      Reported (DeferredPacketHandler.rxByte m c).2 rest

structure Accounted (act : A → Addr → Surroundings τ → Surroundings τ) (m : DeferredPacketHandler A τ)
    (stream : List UInt8) : Prop where
  executed : (processPendingPackets act (receive m stream).2).2.length = (receive m stream).1.count .syncChecksum
  reported : Reported m stream

/- A frame that completes finds room among the pending packets, and an action to run. -/
def Welcome (m : DeferredPacketHandler A τ) (c : UInt8) : Prop :=
  Completes m c → m.queue.pendingPackets.length < pendingPacketsMax ∧
    ∀ b ∈ m.outside.baseHandler.rxCurrentPacket,
      (m.queue.packetInfos (m.outside.memory b)).deferredActionFn.isSome

def AllWelcome (m : DeferredPacketHandler A τ) : List UInt8 → Prop
  | [] => True
  | c :: rest => Welcome m c ∧ AllWelcome (DeferredPacketHandler.rxByte m c).2 rest

instance (m : DeferredPacketHandler A τ) (c : UInt8) : Decidable (Completes m c) := by unfold Completes; infer_instance

instance (m : DeferredPacketHandler A τ) (c : UInt8) : Decidable (Welcome m c) := by unfold Welcome; infer_instance

def decideAllWelcome : (m : DeferredPacketHandler A τ) → (stream : List UInt8) → Decidable (AllWelcome m stream)
  | _, [] => inferInstanceAs (Decidable True)
  | m, c :: rest =>
    have := decideAllWelcome (DeferredPacketHandler.rxByte m c).2 rest
    inferInstanceAs (Decidable (Welcome m c ∧ _))
instance (m : DeferredPacketHandler A τ) (stream : List UInt8) : Decidable (AllWelcome m stream) :=
  decideAllWelcome m stream

section Bytes
variable {L : Layout A} {m : DeferredPacketHandler A τ} {entries : List Entry} {seen : List UInt8} {c : UInt8}

theorem incompletePending (incomplete : ¬ Completes m c) :
    (DeferredPacketHandler.rxByte m c).2.queue.pendingPackets = m.queue.pendingPackets := by
  unfold DeferredPacketHandler.rxByte
  cases fn : m.outside.baseHandler.rxFn with
  | rxAA => simp only [PacketHandler.rxByte, fn, rxAA]; split <;> rfl
  | rx55 => simp only [PacketHandler.rxByte, fn, rx55]; split <;> rfl
  | rxType =>
    simp only [PacketHandler.rxByte, fn, rxType]
    split
    · split <;> rfl
    · rfl
  | rxSize =>
    simp only [PacketHandler.rxByte, fn, rxSize]
    split
    · rfl
    · split
      · rfl
      · simp only [operation, initializeBufferKeeps]
        split <;> rfl
  | rxPayload =>
    simp only [PacketHandler.rxByte, fn, rxPayload]
    cases m.outside.baseHandler.rxBufferEnd <;> split <;> rfl
  | rxChecksum =>
    rw [stepChecksumError fn fun right => incomplete ⟨fn, right⟩]
    rfl

theorem ringFullReported (steady : Steady L m entries seen) (full : RingFull m c) :
    (DeferredPacketHandler.rxByte m c).1.code < 0 := by
  obtain ⟨fn, t, current, size, exceeded⟩ := full
  cases steady.receiving.reading with
  | hunting other => simp [fn] at other
  | preamble other => simp [fn] at other
  | synced other => simp [fn] at other
  | payload other => simp [fn] at other
  | complete other => simp [fn] at other
  | @typed p u s _ here found named checksum =>
    obtain rfl := Option.some.inj (here.symm.trans current)
    obtain ⟨rfl, -⟩ := steady.consistent.installed u p found
    obtain rfl : s = c := named.size.symm.trans size
    have refused : ((operation m.world p).initializeBufferFn p s m.world).1 = none := by
      simp only [operation, initializeBuffer, world]
      rw [if_pos exceeded]
    simp only [DeferredPacketHandler.rxByte, stepSizeRefused fn current named refused]
    decide

/- The packet of a completed frame and its callback. -/
theorem completesPacket (steady : Steady L m entries seen) (completes : Completes m c) :
    ∃ b, m.outside.baseHandler.rxCurrentPacket = some b ∧
      (DeferredPacketHandler.rxByte m c).1 = .syncChecksum ∧
      (DeferredPacketHandler.rxByte m c).2.outside.memory = (onReceive b m.world).2.memory ∧
      (DeferredPacketHandler.rxByte m c).2.queue = (onReceive b m.world).2.env := by
  obtain ⟨fn, rfl⟩ := completes
  cases steady.receiving.reading with
  | hunting other => simp [fn] at other
  | preamble other => simp [fn] at other
  | synced other => simp [fn] at other
  | typed other => simp [fn] at other
  | payload other => simp [fn] at other
  | @complete p t s b rest _ found named filling full =>
    have installed : (operation m.world p).onReceiveFn = some onReceive := rfl
    have step := stepDelivered fn filling.current filling.packet installed
    exact ⟨b, filling.packet, congrArg RxResult.status step, congrArg (fun r => r.world.memory) step,
      congrArg (fun r => r.world.env) step⟩

theorem onReceiveMemory (b : Addr) (w : World (DeferredQueue A)) : (onReceive b w).2.memory = w.memory := by
  simp only [onReceive]
  split <;> rfl

theorem onReceivePending (b : Addr) (w : World (DeferredQueue A)) :
    (onReceive b w).2.env.pendingPackets =
      if w.env.pendingPackets.length ≥ pendingPacketsMax then w.env.pendingPackets else w.env.pendingPackets ++ [b] := by
  simp only [onReceive]
  split <;> rfl

/- What one byte adds to the pending packets, to the acknowledged ones and to the reported ones. -/
inductive ByteOutcome (L : Layout A) (m : DeferredPacketHandler A τ) (entries : List Entry) (c : UInt8) : Prop where
  | quiet {next} (steady : Steady L (DeferredPacketHandler.rxByte m c).2 entries next)
      (status : (DeferredPacketHandler.rxByte m c).1 ≠ .syncChecksum) (welcome : Welcome m c)
      (reported : Unqueueable m c → (DeferredPacketHandler.rxByte m c).1.code < 0)
  | dropped {next} (steady : Steady L (DeferredPacketHandler.rxByte m c).2 entries next)
      (status : (DeferredPacketHandler.rxByte m c).1 = .syncChecksum) (unwelcome : ¬ Welcome m c)
  | queued {next e} (steady : Steady L (DeferredPacketHandler.rxByte m c).2 (entries ++ [e]) next)
      (status : (DeferredPacketHandler.rxByte m c).1 = .syncChecksum) (queued : ¬ Unqueueable m c)
      (action : Welcome m c ↔ (L.due e).isSome)

/- Where the pending packets are as before, so are the entries. -/
theorem entriesStay {later : List Entry} {next : List UInt8} {received : DeferredPacketHandler A τ}
    (moves : Moves entries seen c later next) (after : Steady L received later next) (steady : Steady L m entries seen)
    (same : received.queue.pendingPackets = m.queue.pendingPackets) : later = entries := by
  have lengths : later.length = entries.length := by
    have packets := congrArg List.length (after.queued.symm.trans (same.trans steady.queued))
    simpa using packets
  cases moves with
  | starts => rfl
  | grows => rfl
  | queues => simp at lengths

theorem byteOutcome (sound : L.Sound) (steady : Steady L m entries seen) (c : UInt8) : ByteOutcome L m entries c := by
  obtain ⟨later, next, after, moves⟩ := rxByteSteady sound steady c
  by_cases completes : Completes m c
  · obtain ⟨b, packet, status, memory, queue⟩ := completesPacket steady completes
    have pending : (DeferredPacketHandler.rxByte m c).2.queue.pendingPackets =
        if m.queue.pendingPackets.length ≥ pendingPacketsMax then m.queue.pendingPackets
        else m.queue.pendingPackets ++ [b] :=
      (congrArg DeferredQueue.pendingPackets queue).trans (onReceivePending b m.world)
    by_cases full : m.queue.pendingPackets.length ≥ pendingPacketsMax
    · rw [if_pos full] at pending
      obtain rfl := entriesStay moves after steady pending
      exact .dropped after status fun welcome => absurd (welcome completes).1 (not_lt.mpr full)
    · rw [if_neg full] at pending
      have grown : later.map Entry.packet = entries.map Entry.packet ++ [b] :=
        after.queued.symm.trans (pending.trans (congrArg (· ++ [b]) steady.queued))
      cases moves with
      | starts => exact absurd (congrArg List.length grown) (by simp)
      | grows => exact absurd (congrArg List.length grown) (by simp)
      | @queues e whole =>
        have here : e.packet = b := by simpa using grown
        have held := after.consistent.held e (by simp)
        have typed : m.outside.memory b = e.type := by
          rw [← here, ← held.typed, memory, onReceiveMemory]
          rfl
        have action : (m.queue.packetInfos (m.outside.memory b)).deferredActionFn = (L.infos e.type).deferredActionFn := by
          rw [typed, steady.consistent.static e.type]
          rfl
        refine .queued after status ?_ ?_
        · rintro (⟨fn, -⟩ | ⟨-, same⟩)
          · exact absurd (fn.symm.trans completes.1) (by decide)
          · rw [pending] at same
            exact absurd (congrArg List.length same) (by simp)
        · rw [Layout.due, Option.isSome_map, ← action]
          exact ⟨fun welcome => (welcome completes).2 b packet,
            fun some _ => ⟨not_le.mp full, fun d current => Option.some.inj (packet.symm.trans current) ▸ some⟩⟩
  · have status : (DeferredPacketHandler.rxByte m c).1 ≠ .syncChecksum := incompleteStatus operation _ _ completes
    have pending := incompletePending completes
    obtain rfl := entriesStay moves after steady pending
    refine .quiet after status (fun here => absurd here completes) ?_
    rintro (full | ⟨here, -⟩)
    · exact ringFullReported steady full
    · exact absurd here completes

/- The entries a stream adds, and what the second call makes of them. -/
theorem receiveOutcome (sound : L.Sound) (stream : List UInt8) (steady : Steady L m entries seen) :
    ∃ new next, Steady L (receive m stream).2 (entries ++ new) next ∧
      (new.filterMap L.due).length ≤ (receive m stream).1.count .syncChecksum ∧
      ((new.filterMap L.due).length = (receive m stream).1.count .syncChecksum ∧ Reported m stream ↔
        AllWelcome m stream) := by
  induction stream generalizing m entries seen with
  | nil => exact ⟨[], seen, by simpa [receive] using steady, by simp, by simp [receive, Reported, AllWelcome]⟩
  | cons c rest ih =>
    cases byteOutcome sound steady c with
    | quiet after status welcome reported =>
      obtain ⟨new, next, final, bound, exactly⟩ := ih after
      have count : (receive m (c :: rest)).1.count .syncChecksum =
          (receive (DeferredPacketHandler.rxByte m c).2 rest).1.count .syncChecksum := List.count_cons_of_ne status
      refine ⟨new, next, final, by rw [count]; exact bound, ?_⟩
      rw [count, Reported, AllWelcome, ← exactly]
      exact ⟨fun h => ⟨welcome, h.1, h.2.2⟩, fun h => ⟨h.2.1, reported, h.2.2⟩⟩
    | dropped after status unwelcome =>
      obtain ⟨new, next, final, bound, -⟩ := ih after
      have count : (receive m (c :: rest)).1.count .syncChecksum =
          (receive (DeferredPacketHandler.rxByte m c).2 rest).1.count .syncChecksum + 1 := by
        simp only [receive, status, List.count_cons_self]
      refine ⟨new, next, final, by omega, fun h => ?_, fun h => absurd h.1 unwelcome⟩
      have equal := h.1
      omega
    | @queued _ e after status queued action =>
      obtain ⟨new, next, final, bound, exactly⟩ := ih after
      have count : (receive m (c :: rest)).1.count .syncChecksum =
          (receive (DeferredPacketHandler.rxByte m c).2 rest).1.count .syncChecksum + 1 := by
        simp only [receive, status, List.count_cons_self]
      rw [List.append_assoc] at final
      refine ⟨e :: new, next, final, ?_⟩
      rw [count, Reported, AllWelcome, ← exactly, action]
      cases due : L.due e with
      | none =>
        rw [List.filterMap_cons_none due]
        refine ⟨by omega, fun h => ?_, fun h => absurd h.1 (by simp)⟩
        have equal := h.1
        omega
      | some call =>
        rw [List.filterMap_cons_some due, List.length_cons]
        exact ⟨by omega, fun h => ⟨rfl, by omega, h.2.2⟩, fun h => ⟨by omega, fun here => absurd here queued, h.2.2⟩⟩

end Bytes

/- Between two calls, no acknowledged packet is lost and every packet without room is reported,
exactly when each completed frame finds fewer than eight pending and its type has an action. -/
theorem acknowledgedExecuted (outside : Surroundings τ) (installs : List (Install A)) (ok : Installable installs)
    (act : A → Addr → Surroundings τ → Surroundings τ) (harmless : Harmless installs act) (history : List Operation)
    (stream : List UInt8) :
    let m := (performAll act (begin (setUp outside installs)) (history ++ [.processPending])).machine
    Accounted act m stream ↔ AllWelcome m stream := by
  intro m
  have sound : (layout outside installs).Sound := layoutSound ok
  have spares (a : A) (p : Addr) (o : Surroundings τ) : Spares (layout outside installs) o (act a p o) :=
    (harmless a p o).spares
  obtain ⟨seen, start⟩ : ∃ seen, Steady (layout outside installs) m [] seen := by
    obtain ⟨_, _, _, _, seen, x⟩ := performAllExplained sound spares history (beginExplained ok)
    have last := processExplained sound x (loopWithin spares _ _)
    exact ⟨seen, by simpa [m, performAllAppend, performAll] using last.steady⟩
  obtain ⟨new, next, final, -, exactly⟩ := receiveOutcome sound stream start
  obtain ⟨-, made⟩ := processSteady sound final (loopWithin spares _ _)
  have length := congrArg List.length made
  rw [List.length_map, List.nil_append] at length
  rw [← exactly, ← length]
  exact ⟨fun h => ⟨h.executed, h.reported⟩, fun h => ⟨h.1, h.2⟩⟩

/- Five types of one size, at most two packets of a type pending. -/
def fiveInstalls : List (Install Unit) :=
  [⟨1,4,100,2,some ()⟩, ⟨2,4,200,2,some ()⟩, ⟨3,4,300,2,some ()⟩, ⟨4,4,400,2,some ()⟩, ⟨5,4,500,2,some ()⟩]

theorem fiveInstallable : Installable fiveInstalls := ⟨by decide, by decide, by decide, by decide⟩

def idleMachine : DeferredPacketHandler Unit Unit :=
  (performAll (fun _ _ o => o) (begin (setUp idleSurroundings fiveInstalls)) ([] ++ [.processPending])).machine

theorem twoFramesExecuted : Accounted (fun _ _ o => o) idleMachine (frame [1,4,0,0] ++ frame [2,4,0,0]) := by
  refine (acknowledgedExecuted idleSurroundings fiveInstalls fiveInstallable (fun _ _ o => o)
    (fun _ _ o => ⟨.refl o.baseHandler, fun _ _ _ _ => rfl⟩) [] _).mpr ?_
  decide +kernel

/- Nine packets of five types: no ring of a type overflows, the pending packets do. -/
def nineFrames : List UInt8 := [1,1,2,2,3,3,4,4,5].flatMap fun type => frame [type,4,0,0]

theorem ninthFrameDropped :
    (receive idleMachine nineFrames).1.count .syncChecksum = 9 ∧
    (processPendingPackets (fun _ _ o => o) (receive idleMachine nineFrames).2).2.length = 8 ∧
    (∀ status ∈ (receive idleMachine nineFrames).1, 0 ≤ status.code) ∧
    ¬ Accounted (fun _ _ o => o) idleMachine nineFrames := by
  have acknowledged : (receive idleMachine nineFrames).1.count .syncChecksum = 9 := by decide +kernel
  have executed : (processPendingPackets (fun _ _ o => o) (receive idleMachine nineFrames).2).2.length = 8 := by
    decide +kernel
  refine ⟨acknowledged, executed, by decide +kernel, fun accounted => ?_⟩
  have equal := accounted.executed
  rw [acknowledged, executed] at equal
  exact absurd equal (by decide)

end OrazioLogger.DroppedPackets
