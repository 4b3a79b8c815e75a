import Mathlib.Data.List.Infix
import OrazioLogger.AwaitedAnswer
import OrazioLogger.ClientSteps
import OrazioLogger.JointTables

/-! The base velocity. The number in the header of the deferred packet is also the flag that it is to be sent. -/
namespace OrazioLogger.OrazioClient
open ByteMemory OrazioPackets PacketHandler RingBuffer Outcome

abbrev Velocities := UInt32 × UInt32

def bytes16 (v : UInt16) : List UInt8 := [v.toUInt8, (v >>> 8).toUInt8]
def bytes32 (v : UInt32) : List UInt8 := bytes16 v.toUInt16 ++ bytes16 (v >>> 16).toUInt16

def velocityBytes (v : Velocities) : List UInt8 := bytes32 v.1 ++ bytes32 v.2

/- The drive control packet with a number and velocities. -/
def controlBody (seq : PacketSeq) (v : Velocities) : List UInt8 :=
  differentialDriveControlPacketId :: sizeofDifferentialDriveControlPacket :: bytes16 seq ++ velocityBytes v

def ControlRoom (cl : OrazioClient) : Prop :=
  (sizeofDifferentialDriveControlPacket.toNat : Int) + 3 ≤ packetSizeMax - cl.packetHandler.tx.size

/- One packet is enqueued, with these velocities. -/
def SendsVelocity (v : Velocities) (cl later : OrazioClient) : Prop :=
  waiting later.packetHandler = waiting cl.packetHandler ++ frame (controlBody (cl.globalSeq + 1) v)

def latestVelocity (v : Velocities) : Step → Velocities
  | .velocity tv rv => (tv, rv)
  | _ => v

/- Every cycle of the run that finds room sends the latest velocities. -/
def KeepsSending (v : Velocities) (cl : OrazioClient) (steps : List Step) : Prop :=
  EachStep (fun v _ s => latestVelocity v s) (fun v cl s next => s = .control → ControlRoom cl → SendsVelocity v cl next)
    v cl steps

/- The velocities have taken number 0, behind the last of the 65536 numbers, and not been set since. -/
def spentAfter (spent : Bool) (cl : OrazioClient) : Step → Bool
  | .control => spent || decide (cl.globalSeq = 65535)
  | .velocity _ _ => false
  | _ => spent

/- No cycle that finds room comes then. -/
def Renewed (spent : Bool) (cl : OrazioClient) (steps : List Step) : Prop :=
  EachStep spentAfter (fun spent cl s _ => s = .control → ControlRoom cl → spent = false) spent cl steps

/- The next packet on the line is about a joint that the client has a place for. -/
def NextInTable (cl : OrazioClient) : Prop :=
  ∀ taken ∈ cl.fd.reads.inits, ∀ body ∈ decodedPackets cl taken, decodedPackets cl taken = [body] → InTable body

def Fair (cl : OrazioClient) (s : Step) : Prop := Own s ∧ (s = .read → NextInTable cl)

instance (cl : OrazioClient) : Decidable (ControlRoom cl) := by unfold ControlRoom; infer_instance
instance (v cl later) : Decidable (SendsVelocity v cl later) := by unfold SendsVelocity; infer_instance
instance (v cl steps) : Decidable (KeepsSending v cl steps) := by unfold KeepsSending; infer_instance
instance (spent cl steps) : Decidable (Renewed spent cl steps) := by unfold Renewed; infer_instance
instance (cl : OrazioClient) : Decidable (NextInTable cl) := by unfold NextInTable; infer_instance
instance (cl s) : Decidable (Fair cl s) := by unfold Fair; infer_instance

/-! The deferred packet. -/

/- A client that can send it. -/
structure Deferring (cl : OrazioClient) : Prop where
  sound : Sound cl
  sizes : cl.packetSizes = sendSizes
  type : cl.memory driveControlPacket = differentialDriveControlPacketId
  size : cl.memory (driveControlPacket + 1) = sizeofDifferentialDriveControlPacket

structure Deferred (v : Velocities) (spent : Bool) (cl : OrazioClient) : Prop where
  deferring : Deferring cl
  velocities : load cl.memory (driveControlPacket + 4) 8 = velocityBytes v
  flag : load16 cl.memory (driveControlPacket + 2) = 0 ↔ spent = true

/- What neither sends it nor sets it. -/
structure Beside (cl later : OrazioClient) : Prop where
  sound : Sound later
  sizes : later.packetSizes = cl.packetSizes
  memory : ∀ a : Nat, driveControlPacket ≤ a → a < clientEnd → later.memory a = cl.memory a

section Beside
variable {cl later next : OrazioClient} {s : Step} {v : Velocities} {spent : Bool} {seen : List UInt8}

theorem Beside.deferring (beside : Beside cl later) (deferring : Deferring cl) : Deferring later :=
  ⟨beside.sound, beside.sizes.trans deferring.sizes, (beside.memory _ (by decide) (by decide)).trans deferring.type,
    (beside.memory _ (by decide) (by decide)).trans deferring.size⟩

theorem Beside.deferred (beside : Beside cl later) (deferred : Deferred v spent cl) : Deferred v spent later := by
  have bytes : load later.memory (driveControlPacket + 4) 8 = load cl.memory (driveControlPacket + 4) 8 :=
    loadCongr fun x inside => beside.memory x (le_trans (by decide) inside.1) (lt_of_lt_of_le inside.2 (by decide))
  have word : load16 later.memory (driveControlPacket + 2) = load16 cl.memory (driveControlPacket + 2) := by
    rw [load16, load16, beside.memory _ (by decide) (by decide), beside.memory _ (by decide) (by decide)]
  refine ⟨beside.deferring deferred.deferring, bytes.trans deferred.velocities, ?_⟩
  rw [word]
  exact deferred.flag

/- Whoever leaves the memory alone, or writes behind the client. -/
theorem besideOwn (sound : Sound later) (sizes : later.packetSizes = cl.packetSizes)
    (same : SameBelow clientEnd cl.memory later.memory) : Beside cl later :=
  ⟨sound, sizes, fun a _ below => same a below⟩

/- A packet about a joint of the table, or about no joint, is copied in front of the packet buffer. -/
theorem copiedBeside {op : ClientOp} {body : List UInt8} {m : Memory} (installed : op ∈ installedOps)
    (size : body.length = op.size.toNat) (inTable : op.indexed = true → index body < numJointsMax) {a : Nat}
    (behind : packetBuffer ≤ a) : copied op body m a = m a :=
  if_neg fun inside => absurd (lt_of_lt_of_le inside.2 (copiedInside installed size inTable)) (Nat.not_lt.mpr behind)

theorem readBeside (sound : Sound cl) (inTable : NextInTable cl) (returned : readPacket cl = .ok later) : Beside cl later := by
  obtain ⟨seen, receiving⟩ := sound
  obtain ⟨taken, op, body, split, received⟩ := readLoopReceives receiving returned
  have initial : taken ∈ cl.fd.reads.inits := (List.mem_inits taken _).mpr ⟨later.fd.reads, split.symm⟩
  obtain ⟨rest, shape, length⟩ := received.shape
  have home := inTable taken initial body (by rw [received.decoded]; exact List.mem_singleton.mpr rfl) received.decoded
  have size : body.length = op.size.toNat := by
    rw [shape]
    exact length
  have headed : body.head? = some op.type := by
    rw [shape]
    rfl
  refine ⟨⟨[], received.receiving⟩, by rw [received.follows.only.same], fun a low high => ?_⟩
  have outside : ¬ InBuffer a := fun inside => absurd inside.2 (Nat.not_lt.mpr low)
  rw [received.memory a outside]
  exact copiedBeside received.installed size (home op received.installed headed) (le_trans (by decide) low)

/- Every other step. -/
theorem stepBeside (sound : Sound cl) (fair : Fair cl s) (noCycle : s ≠ .control) (noVelocity : ∀ tv rv, s ≠ .velocity tv rv)
    (returned : step cl s = .ok next) : Beside cl next := by
  obtain ⟨own, inTable⟩ := fair
  have same := SameBelow.refl clientEnd cl.memory
  cases s with
  | lockWrite =>
    have ends := (lockWriteSound sound).returned returned
    simp only [step, lockWrite] at returned
    split at returned
    · cases returned
    · cases returned
      exact besideOwn ends rfl same
  | lockRead =>
    have ends := (lockReadSound sound).returned returned
    simp only [step, lockRead] at returned
    split at returned
    · cases returned
    · cases returned
      exact besideOwn ends rfl same
  | unlockWrite | unlockRead | numJoints =>
    cases returned
    exact besideOwn (sound.sameMemory rfl rfl) rfl same
  | flush =>
    obtain ⟨seen, receiving⟩ := sound
    have flushed := flushLoopFlushed receiving.ring returned
    refine besideOwn ⟨seen, flushed.receiving receiving⟩ (by rw [flushed.only]) ?_
    rw [flushed.only]
    exact same
  | read => exact readBeside sound (inTable rfl) returned
  | send p =>
    cases returned
    obtain ⟨seen, receiving⟩ := sound
    have enqueued := enqueuePacketEnqueued p receiving.ring
    refine besideOwn ⟨seen, enqueued.receiving receiving (foreignAbove own)⟩ (by rw [enqueued.only]) ?_
    rcases enqueued.memory with kept | written
    · rw [kept]
      exact same
    · rw [written]
      exact same.store16 (Nat.le_add_right_of_le own) _
  | control => exact absurd rfl noCycle
  | velocity tv rv => exact absurd rfl (noVelocity tv rv)
  | store a c =>
    cases returned
    exact besideOwn (sound.withMemory rfl ((SameBelow.refl _ _).store (foreignAbove own) c)) rfl (same.store own c)
  | copy dest src n =>
    cases returned
    exact besideOwn (sound.withMemory rfl ((SameBelow.refl _ _).memcpy (foreignAbove own) src n)) rfl (same.memcpy own src n)

end Beside

/-! Setting and sending it. -/

theorem loadStore32End (m : Memory) (a n : Nat) (v : UInt32) : load (store32 m (a + n) v) a (n + 4) = load m a n ++ bytes32 v := by
  have word : ∀ (m : Memory) (n : Nat) (v : UInt16), load (store16 m (a + n) v) a (n + 2) = load m a n ++ bytes16 v := by
    intro m n v
    unfold store16
    rw [Nat.add_assoc a n 1, loadStoreEnd _ a (n + 1), loadStoreEnd _ a n, List.append_assoc]
    rfl
  unfold store32
  rw [Nat.add_assoc a n 2, word _ (n + 2), word _ n, List.append_assoc]
  rfl

theorem loadStore16Outside {m : Memory} {a n x : Nat} (v : UInt16) (outside : x + 2 ≤ a ∨ a + n ≤ x) :
    load (store16 m x v) a n = load m a n := by
  unfold store16
  rw [loadStoreOutside _ fun inside => ?_, loadStoreOutside _ fun inside => ?_]
  · have low := inside.1
    have high := inside.2
    omega
  · have low := inside.1
    have high := inside.2
    omega

section Control
variable {cl later next : OrazioClient} {s : Step} {v : Velocities} {spent : Bool}

theorem store16Deferring {memory : Memory} {seq : PacketSeq} (deferring : Deferring cl) (sound : Sound later)
    (sizes : later.packetSizes = cl.packetSizes) (written : later.memory = store16 memory (driveControlPacket + 2) seq)
    (type : memory driveControlPacket = cl.memory driveControlPacket)
    (size : memory (driveControlPacket + 1) = cl.memory (driveControlPacket + 1)) : Deferring later := by
  have below := (SameBelow.refl (driveControlPacket + 2) memory).store16 (le_refl _) seq
  refine ⟨sound, sizes.trans deferring.sizes, ?_, ?_⟩
  · rw [written, below _ (by decide), type]
    exact deferring.type
  · rw [written, below _ (by decide), size]
    exact deferring.size

theorem withVelocityDeferred (deferring : Deferring cl) (tv rv : UInt32) : Deferred (tv, rv) false (withVelocity cl tv rv) := by
  have first := (SameBelow.refl (driveControlPacket + 4) cl.memory).store32 (le_refl _) tv
  have both := first.store32 (a := driveControlPacket + 8) (by decide) rv
  have sound : Sound (withVelocity cl tv rv) := deferring.sound.withMemory rfl
    ((((SameBelow.refl _ _).store32 (Nat.le_add_right _ _) _).store32 (Nat.le_add_right _ _) _).store16 (Nat.le_add_right _ _) _)
  refine ⟨store16Deferring deferring sound rfl rfl (both _ (by decide)) (both _ (by decide)), ?_, ?_⟩
  · refine (loadStore16Outside 1 (Or.inl (le_refl _))).trans ?_
    refine (loadStore32End _ (driveControlPacket + 4) 4 rv).trans ?_
    rw [velocityBytes, ← List.nil_append (bytes32 tv)]
    exact congrArg (· ++ bytes32 rv) (loadStore32End cl.memory (driveControlPacket + 4) 0 tv)
  · have word : load16 (withVelocity cl tv rv).memory (driveControlPacket + 2) = 1 := load16Store16 _ _ _
    rw [word]
    decide

/- `_sendPacket` takes the deferred packet. -/
theorem enqueueDeferred (deferring : Deferring cl) : enqueuePacket cl driveControlPacket =
    let m := store16 cl.memory (driveControlPacket + 2) (cl.globalSeq + 1)
    let sent := PacketHandler.sendPacket m cl.packetHandler driveControlPacket
    (sent.1, { cl with globalSeq := cl.globalSeq + 1, memory := m, packetHandler := sent.2 }) := by
  refine enqueuePacketChecked ?_ ?_ ?_
  · rw [deferring.type]
    decide
  · rw [deferring.type, deferring.sizes]
    decide
  · rw [deferring.size, deferring.type, deferring.sizes]
    rfl

theorem spentControl (deferred : Deferred v true cl) : sendControl cl = cl :=
  if_neg (not_not_intro (deferred.flag.mpr rfl))

theorem unspentControl (deferred : Deferred v false cl) : sendControl cl = (enqueuePacket cl driveControlPacket).2 :=
  if_pos fun zero => Bool.false_ne_true (deferred.flag.mp zero)

/- Numbering it leaves its type and size. -/
theorem Deferring.numbered (deferring : Deferring cl) (seq : PacketSeq) :
    store16 cl.memory (driveControlPacket + 2) seq driveControlPacket = differentialDriveControlPacketId ∧
      store16 cl.memory (driveControlPacket + 2) seq (driveControlPacket + 1) = sizeofDifferentialDriveControlPacket := by
  have below := (SameBelow.refl (driveControlPacket + 2) cl.memory).store16 (le_refl _) seq
  exact ⟨(below _ (by decide)).trans deferring.type, (below _ (by decide)).trans deferring.size⟩

theorem numberedBytes (deferred : Deferred v spent cl) (seq : PacketSeq) :
    packetBytes (store16 cl.memory (driveControlPacket + 2) seq) driveControlPacket = controlBody seq v := by
  obtain ⟨type, size⟩ := deferred.deferring.numbered seq
  have velocities : load (store16 cl.memory (driveControlPacket + 2) seq) (driveControlPacket + 4) 8 = velocityBytes v :=
    (loadStore16Outside seq (Or.inl (le_refl _))).trans deferred.velocities
  have low : store16 cl.memory (driveControlPacket + 2) seq (driveControlPacket + 2) = seq.toUInt8 :=
    (storeOther _ (Nat.ne_of_lt (Nat.lt_succ_self _))).trans (storeSame _ _ _)
  have high : store16 cl.memory (driveControlPacket + 2) seq (driveControlPacket + 3) = (seq >>> 8).toUInt8 := storeSame _ _ _
  rw [packetBytes, size]
  change load _ driveControlPacket (8 + 1 + 1 + 1 + 1) = _
  rw [loadCons, loadCons, loadCons, loadCons, type, size]
  simp only [Nat.add_assoc, Nat.reduceAdd]
  rw [low, high, velocities]
  rfl

theorem unspentSends (deferred : Deferred v false cl) (room : ControlRoom cl) : SendsVelocity v cl (sendControl cl) := by
  obtain ⟨seen, receiving⟩ := deferred.deferring.sound
  have bytes := numberedBytes deferred (cl.globalSeq + 1)
  have size := (deferred.deferring.numbered (cl.globalSeq + 1)).2
  have queued := (sendPacketQueues (store16 cl.memory (driveControlPacket + 2) (cl.globalSeq + 1)) driveControlPacket
    receiving.ring (by rw [size]; exact room)).2.2.1
  rw [SendsVelocity, unspentControl deferred, enqueueDeferred deferred.deferring]
  rw [bytes] at queued
  exact queued

theorem enqueueDeferring (deferring : Deferring cl) : Deferring (enqueuePacket cl driveControlPacket).2 := by
  obtain ⟨seen, receiving⟩ := deferring.sound
  have enqueued := enqueuePacketEnqueued driveControlPacket receiving.ring
  have sound : Sound (enqueuePacket cl driveControlPacket).2 := ⟨seen, enqueued.receiving receiving (le_refl _)⟩
  have sent := congrArg Prod.snd (enqueueDeferred deferring)
  exact store16Deferring deferring sound (by rw [sent]) (by rw [sent]) rfl rfl

theorem lastNumber (n : UInt16) : n + 1 = 0 ↔ n = 65535 := by
  have bound := n.toNat_lt
  rw [← UInt16.toNat_inj, ← UInt16.toNat_inj, UInt16.toNat_add]
  change (n.toNat + 1) % 65536 = 0 ↔ n.toNat = 65535
  omega

/- The packet's number is the flag of the cycles to come. -/
theorem sendControlDeferred (deferred : Deferred v spent cl) : Deferred v (spentAfter spent cl .control) (sendControl cl) := by
  cases spent with
  | true =>
    rw [spentControl deferred]
    exact deferred
  | false =>
    have sent := congrArg Prod.snd (enqueueDeferred deferred.deferring)
    have memory : (enqueuePacket cl driveControlPacket).2.memory = store16 cl.memory (driveControlPacket + 2) (cl.globalSeq + 1) := by
      rw [sent]
    rw [unspentControl deferred]
    refine ⟨enqueueDeferring deferred.deferring, ?_, ?_⟩
    · rw [memory]
      exact (loadStore16Outside _ (Or.inl (le_refl _))).trans deferred.velocities
    · rw [memory, load16Store16, spentAfter, Bool.false_or, decide_eq_true_iff]
      exact lastNumber cl.globalSeq

theorem stepDeferring (deferring : Deferring cl) (fair : Fair cl s) (returned : step cl s = .ok next) : Deferring next := by
  by_cases cycle : s = .control
  · subst cycle
    cases returned
    unfold sendControl
    split
    · exact enqueueDeferring deferring
    · exact deferring
  by_cases set : ∃ tv rv, s = .velocity tv rv
  · obtain ⟨tv, rv, rfl⟩ := set
    cases returned
    exact (withVelocityDeferred deferring tv rv).deferring
  · exact (stepBeside deferring.sound fair cycle (fun tv rv same => set ⟨tv, rv, same⟩) returned).deferring deferring

theorem stepDeferred (deferred : Deferred v spent cl) (fair : Fair cl s) (returned : step cl s = .ok next) :
    Deferred (latestVelocity v s) (spentAfter spent cl s) next := by
  by_cases cycle : s = .control
  · subst cycle
    cases returned
    exact sendControlDeferred deferred
  by_cases set : ∃ tv rv, s = .velocity tv rv
  · obtain ⟨tv, rv, rfl⟩ := set
    cases returned
    exact withVelocityDeferred deferred.deferring tv rv
  · have beside := stepBeside deferred.deferring.sound fair cycle (fun tv rv same => set ⟨tv, rv, same⟩) returned
    cases s with
    | control => exact absurd rfl cycle
    | velocity tv rv => exact absurd ⟨tv, rv, rfl⟩ set
    | _ => exact beside.deferred deferred

/- A cycle sends the velocities unless they are spent. -/
theorem controlSends (deferred : Deferred v spent cl) (room : ControlRoom cl) :
    SendsVelocity v cl (sendControl cl) ↔ spent = false := by
  cases spent with
  | false => exact ⟨fun _ => rfl, fun _ => unspentSends deferred room⟩
  | true =>
    rw [spentControl deferred]
    refine ⟨fun sends => ?_, fun unspent => nomatch unspent⟩
    have more := congrArg List.length (show waiting cl.packetHandler = _ from sends)
    rw [List.length_append, frameLength] at more
    omega

theorem keepsSendingRenewed {steps : List Step} (deferred : Deferred v spent cl) (fair : Throughout Fair cl steps) :
    KeepsSending v cl steps ↔ Renewed spent cl steps := by
  have keeps : ∀ v spent cl s next, Deferred v spent cl → Fair cl s → step cl s = .ok next →
      Deferred (latestVelocity v s) (spentAfter spent cl s) next :=
    fun v spent cl s next deferred fair returned => stepDeferred deferred fair returned
  refine eachStepIff keeps ?_ fair deferred
  intro v spent cl s next deferred fair returned
  refine forall_congr' fun cycle => forall_congr' fun room => ?_
  subst cycle
  cases returned
  exact controlSends deferred room

theorem initDeferring (blank : PacketHandler ClientOp) (memory : Memory) (fd : Serial) : Deferring (init blank memory fd) := by
  refine ⟨initSound blank memory fd, rfl, ?_, ?_⟩
  all_goals
    unfold init
    dsimp only
    simp (disch := decide) only [storeHeader, store16, store32, storeOther, storeSame]

/- The calls of each caller are runs of steps, and whatever the steps, the velocities are sent exactly while
they are renewed. -/
theorem velocityKeepsBeingSent (blank : PacketHandler ClientOp) (memory : Memory) (fd : Serial) {before after : List Step}
    {tv rv : UInt32} {cl : OrazioClient} (fair : Throughout Fair (init blank memory fd) (before ++ .velocity tv rv :: after))
    (reached : run (init blank memory fd) before = .ok cl) :
    (∀ (start : OrazioClient) (calls : List Call), (∀ c ∈ calls, Foreign c) → DrivesAs start calls) ∧
    (KeepsSending (tv, rv) (withVelocity cl tv rv) after ↔ Renewed false (withVelocity cl tv rv) after) := by
  obtain ⟨deferring, rest⟩ := fair.kept (fun _ _ _ deferring fair returned => stepDeferring deferring fair returned)
    (initDeferring blank memory fd) reached
  exact ⟨fun start _ foreign => performDrives start foreign,
    keepsSendingRenewed (withVelocityDeferred deferring tv rv) ((eachStepCons rfl).mp rest).2⟩

end Control

/-! Runs on a line with two epochs, which takes all that is written. -/

def emptyEpochs : Serial :=
  { reads := onLine (frame (endOfEpoch.body 1) ++ frame (endOfEpoch.body 2)), writes := List.replicate 300 1, written := [] }

def waitingClient : OrazioClient := init (blankHandler ClientOp) (fun _ => 0) emptyEpochs

/- A cycle of `OrazioClient_sync` that reads one packet, and a call of `OrazioClient_sendPacket` that does not wait. -/
def cycleSteps : List Step := [.lockWrite, .flush, .control, .unlockWrite, .lockRead, .read, .unlockRead]
def sendSteps : List Step := [.lockWrite, .send 1000, .unlockWrite]

theorem bothVelocitiesSent : KeepsSending (1, 0) (withVelocity waitingClient 1 0)
    (cycleSteps ++ [.lockWrite, .velocity 2 3, .unlockWrite] ++ cycleSteps) :=
  (@velocityKeepsBeingSent (blankHandler ClientOp) (fun _ => 0) emptyEpochs []
    (cycleSteps ++ [.lockWrite, .velocity 2 3, .unlockWrite] ++ cycleSteps) 1 0 waitingClient (by decide +kernel) rfl).2.mpr
    (by decide +kernel)

/- A caller's packet that finds no room. -/
structure Refusing (cl : OrazioClient) : Prop where
  free : cl.writeMutex = false
  sizes : cl.packetSizes systemParamPacketId = sizeofSystemParamPacket
  full : cl.packetHandler.tx.size = 243
  type : cl.memory 1000 = systemParamPacketId
  size : cl.memory 1001 = sizeofSystemParamPacket

def numberedAt (cl : OrazioClient) (n : UInt16) : OrazioClient :=
  { cl with globalSeq := n, memory := store16 cl.memory 1002 n }

theorem store16Again (m : Memory) (a : Addr) (v w : UInt16) : store16 (store16 m a v) a w = store16 m a w := by
  funext x
  by_cases high : x = a + 1
  · rw [high]
    exact (storeSame _ _ _).trans (storeSame _ _ _).symm
  by_cases low : x = a
  · subst low
    exact ((storeOther _ high).trans (storeSame _ _ _)).trans ((storeOther _ high).trans (storeSame _ _ _)).symm
  · exact ((storeOther _ high).trans ((storeOther _ low).trans ((storeOther _ high).trans (storeOther _ low)))).trans
      ((storeOther _ high).trans (storeOther _ low)).symm

section Refusing
variable {cl : OrazioClient}

theorem Refusing.numbered (refusing : Refusing cl) (n : UInt16) : Refusing (numberedAt cl n) := by
  have below := (SameBelow.refl 1002 cl.memory).store16 (le_refl _) n
  exact { refusing with type := (below 1000 (by decide)).trans refusing.type, size := (below 1001 (by decide)).trans refusing.size }

/- It takes a number all the same. -/
theorem refusedSend (refusing : Refusing cl) : run cl sendSteps = .ok (numberedAt cl (cl.globalSeq + 1)) := by
  have sent : (enqueuePacket { cl with writeMutex := true } 1000).2 =
      { numberedAt cl (cl.globalSeq + 1) with writeMutex := true } := by
    have refused : PacketHandler.sendPacket (numberedAt cl (cl.globalSeq + 1)).memory cl.packetHandler 1000 =
        (.txBufferFull, cl.packetHandler) := sendPacketRefused (by
      rw [(refusing.numbered _).size, refusing.full]
      decide)
    refine (congrArg Prod.snd (@enqueuePacketChecked { cl with writeMutex := true } 1000 ?_ ?_ ?_)).trans ?_
    · exact lt_of_eq_of_lt (congrArg UInt8.toNat refusing.type) (by decide)
    · exact ne_of_eq_of_ne ((congrArg cl.packetSizes refusing.type).trans refusing.sizes) (by decide)
    · exact refusing.size.trans ((congrArg cl.packetSizes refusing.type).trans refusing.sizes).symm
    · exact congrArg (fun sent => { numberedAt cl (cl.globalSeq + 1) with writeMutex := true, packetHandler := sent })
        (congrArg Prod.snd refused)
  have unlocked : unlockWrite (enqueuePacket { cl with writeMutex := true } 1000).2 = numberedAt cl (cl.globalSeq + 1) := by
    rw [sent, unlockWrite, ← refusing.free]
    rfl
  rw [sendSteps, run, step, lockWrite, refusing.free]
  exact congrArg Except.ok unlocked

theorem refusedSends (refusing : Refusing cl) (n : ℕ) :
    run cl (List.replicate (n + 1) sendSteps).flatten = .ok (numberedAt cl (cl.globalSeq + UInt16.ofNat (n + 1))) := by
  induction n with
  | zero => exact refusedSend refusing
  | succ n ih =>
    have further := refusedSend (refusing.numbered (cl.globalSeq + UInt16.ofNat (n + 1)))
    have number : cl.globalSeq + UInt16.ofNat (n + 1) + 1 = cl.globalSeq + UInt16.ofNat (n + 1 + 1) := by
      rw [UInt16.ofNat_add (n + 1), ← UInt16.add_assoc]
      rfl
    rw [List.replicate_succ', List.flatten_append, runAppend, ih, List.flatten_singleton]
    exact further.trans (congrArg Except.ok (by
      rw [numberedAt, numberedAt, store16Again, number]
      rfl))

end Refusing

/- Nine packets of the caller fill the ring. -/
def filling : List Step :=
  [.store 1000 systemParamPacketId, .store 1001 sizeofSystemParamPacket] ++ (List.replicate 9 sendSteps).flatten

def filled : OrazioClient := (run waitingClient filling).toOption.getD waitingClient

theorem filledRun : run waitingClient filling = .ok filled := by
  have returns : (run waitingClient filling).toOption.isSome = true := by decide +kernel
  unfold filled
  cases ran : run waitingClient filling with
  | error reason =>
    rw [ran] at returns
    contradiction
  | ok cl => rfl

theorem filledSends (n : ℕ) : run waitingClient (filling ++ (List.replicate (n + 1) sendSteps).flatten) =
    .ok (numberedAt filled (filled.globalSeq + UInt16.ofNat (n + 1))) := by
  have refusing : Refusing filled := by
    constructor <;> decide +kernel
  rw [runAppend, bindOk filledRun]
  exact refusedSends refusing n

/- 65526 more take the rest of the numbers: the first cycle sends the velocities with number 0, the second one nothing. -/
theorem lastNumberForgotten : ∃ cl, run waitingClient (filling ++ (List.replicate 65526 sendSteps).flatten) = .ok cl ∧
    ¬ KeepsSending (1, 0) (withVelocity cl 1 0) (cycleSteps ++ cycleSteps) := by
  have last : filled.globalSeq + UInt16.ofNat (65525 + 1) = 65535 := by decide +kernel
  have reached := filledSends 65525
  rw [last] at reached
  exact ⟨numberedAt filled 65535, reached, by decide +kernel⟩

end OrazioLogger.OrazioClient
