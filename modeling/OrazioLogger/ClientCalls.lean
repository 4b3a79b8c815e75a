import OrazioLogger.ClientLocks
import OrazioLogger.ClientReceiver

/-! The receiver of the client across whole sequences of calls. Apart from reading,
a call writes behind the packets the client receives, and sends. -/
namespace OrazioLogger.OrazioClient
open ByteMemory OrazioPackets PacketHandler RingBuffer Outcome

/- Where the packets of the client end and those of its callers begin. -/
def clientEnd : Addr := driveControlPacket + sizeofDifferentialDriveControlPacket.toNat

def SameBelow (limit : Addr) (m k : Memory) : Prop := ∀ a, a < limit → k a = m a

section Memories
variable {limit a : Addr} {m k l : Memory}

theorem SameBelow.refl (limit : Addr) (m : Memory) : SameBelow limit m m := fun _ _ => rfl

theorem SameBelow.trans (first : SameBelow limit m k) (second : SameBelow limit k l) : SameBelow limit m l :=
  fun a below => (second a below).trans (first a below)

theorem SameBelow.store (same : SameBelow limit m k) (above : limit ≤ a) (c : UInt8) :
    SameBelow limit m (ByteMemory.store k a c) :=
  same.trans fun _ below => storeOther c (Nat.ne_of_lt (Nat.lt_of_lt_of_le below above))

theorem SameBelow.store16 (same : SameBelow limit m k) (above : limit ≤ a) (v : UInt16) :
    SameBelow limit m (OrazioClient.store16 k a v) :=
  (same.store above _).store (Nat.le_add_right_of_le above) _

theorem SameBelow.store32 (same : SameBelow limit m k) (above : limit ≤ a) (v : UInt32) :
    SameBelow limit m (OrazioClient.store32 k a v) :=
  (same.store16 above _).store16 (Nat.le_add_right_of_le above) _

theorem SameBelow.storeHeader (same : SameBelow limit m k) (above : limit ≤ a) (type : PacketType) (size : PacketSize)
    (seq : PacketSeq) : SameBelow limit m (OrazioClient.storeHeader k a type size seq) :=
  ((same.store above _).store (Nat.le_add_right_of_le above) _).store16 (Nat.le_add_right_of_le above) _

theorem SameBelow.memcpy (same : SameBelow limit m k) (above : limit ≤ a) (src : Addr) (n : Nat) :
    SameBelow limit m (OrazioClient.memcpy k a src n) :=
  same.trans fun _ below => if_neg fun inside => absurd inside.1 (Nat.not_le_of_lt (Nat.lt_of_lt_of_le below above))

end Memories

section Parts
variable {cl later : OrazioClient} {seen : List UInt8}

/- Sending, and writing behind the received packets, leaves the receiver where it is. -/
theorem Receiving.keep (receiving : Receiving cl seen) (only : TransmitOnly cl.packetHandler later.packetHandler)
    (ring : Valid packetSizeMax later.packetHandler.tx) (same : SameBelow driveControlPacket cl.memory later.memory) :
    Receiving later seen := by
  refine ⟨fun t op => by rw [only.entry]; exact receiving.table t op, ?_, ?_, ring⟩
  · refine receiving.reading.keep only ⟨fun _ => rfl, fun _ => rfl⟩ fun b s a packet size inside => ?_
    have long : 4 ≤ seen.length := by
      by_contra short
      rw [List.getElem?_eq_none (by omega)] at size
      contradiction
    obtain rfl : packetBuffer = b := Option.some.inj ((receiving.buffer long).symm.trans packet)
    have small : s.toNat ≤ 254 := by
      cases receiving.reading with
      | payload _ _ named => exact (Option.some.inj size) ▸ named.high
      | complete _ _ named => exact (Option.some.inj size) ▸ named.high
      | _ => simp at long
    exact same a (Nat.lt_of_lt_of_le inside.2 (Nat.add_le_add_left small packetBuffer))
  · rw [only.same]
    exact receiving.buffer

theorem Receiving.withMemory (receiving : Receiving cl seen) (handler : later.packetHandler = cl.packetHandler)
    (same : SameBelow driveControlPacket cl.memory later.memory) : Receiving later seen :=
  receiving.keep (by rw [handler]; exact .refl _) (by rw [handler]; exact receiving.ring) same

/- What `_sendPacket` changes, sent or refused. -/
structure Enqueued (cl later : OrazioClient) (p : Addr) : Prop where
  only : later = { cl with globalSeq := cl.globalSeq + 1, packetHandler := later.packetHandler, memory := later.memory }
  transmit : TransmitOnly cl.packetHandler later.packetHandler
  ring : Valid packetSizeMax later.packetHandler.tx
  memory : later.memory = cl.memory ∨ later.memory = store16 cl.memory (p + 2) (cl.globalSeq + 1)

theorem enqueuePacketEnqueued (p : Addr) (ring : Valid packetSizeMax cl.packetHandler.tx) :
    Enqueued cl (enqueuePacket cl p).2 p := by
  simp only [enqueuePacket]
  split
  · exact ⟨rfl, .refl _, ring, Or.inl rfl⟩
  · split
    · exact ⟨rfl, .refl _, ring, Or.inl rfl⟩
    · split
      · exact ⟨rfl, .refl _, ring, Or.inl rfl⟩
      · by_cases room : packetSizeMax - cl.packetHandler.tx.size <
            (store16 cl.memory (p + 2) (cl.globalSeq + 1) (p + 1)).toNat + 3
        · rw [sendPacketRefused room]
          exact ⟨rfl, .refl _, ring, Or.inr rfl⟩
        · obtain ⟨-, valid, -, only⟩ := sendPacketQueues (store16 cl.memory (p + 2) (cl.globalSeq + 1)) p ring
            (Int.not_lt.mp room)
          exact ⟨rfl, only, valid, Or.inr rfl⟩

theorem Enqueued.receiving {p : Addr} (enqueued : Enqueued cl later p) (receiving : Receiving cl seen)
    (above : driveControlPacket ≤ p) : Receiving later seen := by
  refine receiving.keep enqueued.transmit enqueued.ring ?_
  rcases enqueued.memory with same | written
  · rw [same]
    exact .refl _ _
  · rw [written]
    exact (SameBelow.refl _ _).store16 (Nat.le_add_right_of_le above) _

/- What `_flushBuffer` changes when it returns. -/
structure Flushed (cl later : OrazioClient) : Prop where
  only : later = { cl with
    packetHandler := later.packetHandler, txBytes := later.txBytes
    fd := { cl.fd with writes := later.fd.writes, written := later.fd.written } }
  transmit : TransmitOnly cl.packetHandler later.packetHandler
  ring : Valid packetSizeMax later.packetHandler.tx
  empty : later.packetHandler.tx.size = 0

theorem flushLoopFlushed {writes : List Int} (ring : Valid packetSizeMax cl.packetHandler.tx)
    (returned : flushLoop cl writes = .ok later) : Flushed cl later := by
  induction writes generalizing cl with
  | nil =>
    unfold flushLoop at returned
    split at returned
    · cases returned
      exact ⟨rfl, .refl _, ring, by assumption⟩
    · contradiction
  | cons res rest ih =>
    unfold flushLoop at returned
    split at returned
    · cases returned
      exact ⟨rfl, .refl _, ring, by assumption⟩
    · rename_i some
      obtain ⟨-, valid, only⟩ := txByteTakes ring some
      have flushed := ih valid returned
      exact ⟨flushed.only, only.trans flushed.transmit, flushed.ring, flushed.empty⟩

/- The line takes the bytes: one outcome of `write` each. -/
theorem flushLoopReturns {writes : List Int} (ring : Valid packetSizeMax cl.packetHandler.tx)
    (enough : cl.packetHandler.tx.size ≤ writes.length) : ∃ later, flushLoop cl writes = .ok later ∧
      (later.fd.writes.length : Int) = writes.length - cl.packetHandler.tx.size := by
  induction writes generalizing cl with
  | nil =>
    have empty : cl.packetHandler.tx.size = 0 := Int.le_antisymm enough ring.sizeLow
    refine ⟨{ cl with fd := { cl.fd with writes := [] } }, by rw [flushLoop, if_pos empty], ?_⟩
    rw [empty]
    rfl
  | cons res rest ih =>
    by_cases empty : cl.packetHandler.tx.size = 0
    · refine ⟨{ cl with fd := { cl.fd with writes := res :: rest } }, by rw [flushLoop, if_pos empty], ?_⟩
      rw [empty, Int.sub_zero]
    · obtain ⟨-, valid, -⟩ := txByteTakes ring empty
      have fewer : cl.packetHandler.txByte.2.tx.size = cl.packetHandler.tx.size - 1 := by
        simp only [txByte, if_neg empty, bufferGet]
      rw [List.length_cons] at enough ⊢
      let sent : OrazioClient := { cl with
        packetHandler := cl.packetHandler.txByte.2
        fd := { cl.fd with written := cl.fd.written ++ [cl.packetHandler.txByte.1] }
        txBytes := cl.txBytes + res }
      have sentRing : Valid packetSizeMax sent.packetHandler.tx := valid
      have sentFewer : sent.packetHandler.tx.size = cl.packetHandler.tx.size - 1 := fewer
      obtain ⟨later, returned, left⟩ := ih sentRing (by rw [sentFewer]; omega)
      refine ⟨later, by rw [flushLoop, if_neg empty]; exact returned, ?_⟩
      rw [left, sentFewer]
      omega

theorem Flushed.receiving (flushed : Flushed cl later) (receiving : Receiving cl seen) : Receiving later seen := by
  refine receiving.keep flushed.transmit flushed.ring ?_
  rw [flushed.only]
  exact .refl _ _

end Parts

/-! A client whose receiver is somewhere in a frame, and stays so over every call. -/

def Sound (cl : OrazioClient) : Prop := ∃ seen, Receiving cl seen

theorem Sound.ring {cl : OrazioClient} (sound : Sound cl) : Valid packetSizeMax cl.packetHandler.tx :=
  sound.elim fun _ receiving => receiving.ring

/- A call that returns leaves the client sound. -/
abbrev KeepsSound : Except Halt OrazioClient → Prop := Ends (fun _ => True) Sound

abbrev AnswersSound : Except Halt (PacketStatus × OrazioClient) → Prop := Ends (fun _ => True) fun result => Sound result.2

section Calls
variable {cl : OrazioClient}

theorem Sound.withMemory {later : OrazioClient} (sound : Sound cl) (handler : later.packetHandler = cl.packetHandler)
    (same : SameBelow driveControlPacket cl.memory later.memory) : Sound later := by
  obtain ⟨seen, receiving⟩ := sound
  exact ⟨seen, receiving.withMemory handler same⟩

theorem Sound.sameMemory {later : OrazioClient} (sound : Sound cl) (handler : later.packetHandler = cl.packetHandler)
    (memory : later.memory = cl.memory) : Sound later :=
  sound.withMemory handler (by rw [memory]; exact .refl _ _)

theorem lockWriteSound (sound : Sound cl) : KeepsSound (lockWrite cl) := by
  unfold lockWrite
  split
  · trivial
  · exact sound.sameMemory rfl rfl

theorem lockReadSound (sound : Sound cl) : KeepsSound (lockRead cl) := by
  unfold lockRead
  split
  · trivial
  · exact sound.sameMemory rfl rfl

theorem enqueuePacketSound {p : Addr} (above : driveControlPacket ≤ p) (sound : Sound cl) :
    Sound (enqueuePacket cl p).2 := by
  obtain ⟨seen, receiving⟩ := sound
  exact ⟨seen, (enqueuePacketEnqueued p receiving.ring).receiving receiving above⟩

theorem flushBufferSound (sound : Sound cl) : KeepsSound (flushBuffer cl) := by
  obtain ⟨seen, receiving⟩ := sound
  cases returned : flushBuffer cl with
  | error => trivial
  | ok later => exact ⟨seen, (flushLoopFlushed receiving.ring returned).receiving receiving⟩

theorem readPacketSound (sound : Sound cl) : KeepsSound (readPacket cl) := by
  obtain ⟨seen, receiving⟩ := sound
  cases returned : readPacket cl with
  | error => trivial
  | ok later =>
    obtain ⟨_, _, _, -, got⟩ := readLoopReceives receiving returned
    exact ⟨[], got.receiving⟩

theorem awaitResponseSound (type : PacketType) (seq : PacketSeq) (timeout : Nat) (sound : Sound cl) :
    AnswersSound (awaitResponse cl type seq timeout) := by
  induction timeout generalizing cl with
  | zero => exact sound
  | succ timeout ih =>
    unfold awaitResponse
    refine (readPacketSound sound).bind fun next sound => ?_
    split
    · exact sound
    · exact ih sound

theorem sendPacketSound {p : Addr} (timeout : Int) (above : driveControlPacket ≤ p) (sound : Sound cl) :
    AnswersSound (sendPacket cl p timeout) := by
  unfold sendPacket
  split
  · exact (lockWriteSound sound).bind fun locked sound => (enqueuePacketSound above sound).sameMemory rfl rfl
  · refine (lockWriteSound sound).bind fun writing sound => ?_
    refine (lockReadSound sound).bind fun locked sound => ?_
    have sound := enqueuePacketSound above sound
    dsimp only
    split
    · exact sound.sameMemory rfl rfl
    · refine (flushBufferSound sound).bind fun flushed sound => ?_
      exact (awaitResponseSound _ _ _ sound).bind fun answer sound => sound.sameMemory rfl rfl

theorem awaitEpochSound (current : PacketSeq) (turns : Nat) (sound : Sound cl) :
    KeepsSound (awaitEpoch cl current turns) := by
  induction turns generalizing cl with
  | zero => trivial
  | succ turns ih =>
    unfold awaitEpoch
    refine (lockReadSound sound).bind fun locked sound => ?_
    refine (readPacketSound sound).bind fun next sound => ?_
    have unlocked : Sound (unlockRead next) := sound.sameMemory rfl rfl
    dsimp only
    split
    · exact ih unlocked
    · exact unlocked

theorem syncCyclesSound (cycles : Nat) (sound : Sound cl) : KeepsSound (syncCycles cl cycles) := by
  induction cycles generalizing cl with
  | zero => exact sound
  | succ cycles ih =>
    unfold syncCycles
    refine (lockWriteSound sound).bind fun locked sound => ?_
    refine (flushBufferSound sound).bind fun flushed sound => ?_
    refine (awaitEpochSound _ _ ?_).bind fun next sound => ih sound
    split
    · exact (enqueuePacketSound (Nat.le_refl _) sound).sameMemory rfl rfl
    · exact sound.sameMemory rfl rfl

theorem getSound {dest : Addr} (above : driveControlPacket ≤ dest) (sound : Sound cl) : AnswersSound (get cl dest) := by
  simp only [get]
  split
  · split
    · exact sound
    · split
      · trivial
      · refine (lockReadSound sound).bind fun locked sound => ?_
        split
        · split
          · exact sound
          · exact sound.withMemory rfl ((SameBelow.refl _ _).memcpy above _ _)
        · exact sound.withMemory rfl ((SameBelow.refl _ _).memcpy above _ _)
  · exact sound

theorem setBaseVelocitySound (tv rv : UInt32) (sound : Sound cl) : KeepsSound (setBaseVelocity cl tv rv) := by
  refine (lockWriteSound sound).bind fun locked sound => sound.withMemory rfl ?_
  exact (((SameBelow.refl _ _).store32 (Nat.le_add_right _ _) _).store32 (Nat.le_add_right _ _) _).store16
    (Nat.le_add_right _ _) _

theorem getOdometryPositionSound {x y theta : Addr} (above : driveControlPacket ≤ x ∧ driveControlPacket ≤ y ∧
    driveControlPacket ≤ theta) (sound : Sound cl) : KeepsSound (getOdometryPosition cl x y theta) := by
  refine (lockReadSound sound).bind fun locked sound => sound.withMemory rfl ?_
  exact (((SameBelow.refl _ _).store32 above.1 _).store32 above.2.1 _).store32 above.2.2 _

theorem sendQuerySound {query : Addr} (paramType index : UInt8) (timeout : Int) (above : driveControlPacket ≤ query)
    (sound : Sound cl) : AnswersSound (sendQuery cl query paramType index timeout) := by
  refine sendPacketSound timeout above (sound.withMemory rfl ?_)
  exact ((SameBelow.refl _ _).store (Nat.le_add_right_of_le above) _).store (Nat.le_add_right_of_le above) _

theorem queryJointsSound {query : Addr} (timeout : Int) (i : UInt8) (joints : Nat) (above : driveControlPacket ≤ query)
    (sound : Sound cl) : AnswersSound (queryJoints cl query timeout i joints) := by
  induction joints generalizing cl i with
  | zero => exact sound
  | succ joints ih =>
    unfold queryJoints
    refine (sendQuerySound paramJointsSingle i timeout above sound).bind fun result sound => ?_
    dsimp only
    split
    · exact sound
    · exact ih (i + 1) sound

theorem readConfigurationSound {query : Addr} (timeout : Int) (above : driveControlPacket ≤ query) (sound : Sound cl) :
    AnswersSound (readConfiguration cl query timeout) := by
  unfold readConfiguration
  let asked : Memory := storeHeader cl.memory query paramControlPacketId sizeofParamControlPacket 0
  have prepared : Sound { cl with memory := store asked (query + 4) paramRequest } :=
    sound.withMemory rfl (((SameBelow.refl _ _).storeHeader above _ _ _).store (Nat.le_add_right_of_le above) _)
  refine (sendQuerySound paramSystem 0xFF timeout above prepared).bind fun system sound => ?_
  dsimp only
  split
  · exact sound
  · split
    · trivial
    · split
      · trivial
      · have known : Sound { system.2 with numJoints := (system.2.memory (systemParam + 23)).toNat } :=
          sound.sameMemory rfl rfl
        refine (queryJointsSound timeout 0 _ above known).bind fun joints sound => ?_
        split
        · exact sound
        · refine (sendQuerySound paramDrive 0xFF timeout above sound).bind fun drive sound => ?_
          split
          · exact sound
          · exact sendQuerySound paramSonar 0xFF timeout above sound

/- What a caller passes is its own memory, not the client's. -/
def Foreign : Call → Prop
  | .fill a _ => clientEnd ≤ a
  | .sendPacket p _ => clientEnd ≤ p
  | .get dest => clientEnd ≤ dest
  | .getOdometryPosition x y theta => clientEnd ≤ x ∧ clientEnd ≤ y ∧ clientEnd ≤ theta
  | .readConfiguration query _ => clientEnd ≤ query
  | .sync _ | .setBaseVelocity _ _ => True

instance (c : Call) : Decidable (Foreign c) := by cases c <;> unfold Foreign <;> infer_instance

theorem foreignAbove {a : Addr} (foreign : clientEnd ≤ a) : driveControlPacket ≤ a :=
  Nat.le_trans (Nat.le_add_right _ _) foreign

theorem callSound {c : Call} (foreign : Foreign c) (sound : Sound cl) : KeepsSound (call cl c) := by
  cases c with
  | fill a c => exact sound.withMemory rfl ((SameBelow.refl _ _).store (foreignAbove foreign) _)
  | sendPacket p timeout => exact (sendPacketSound timeout (foreignAbove foreign) sound).map fun _ after => after
  | sync cycles =>
    have whole : AnswersSound (sync cl cycles) := (syncCyclesSound cycles.toNat sound).bind fun _ after => after
    exact whole.map fun _ after => after
  | get dest => exact (getSound (foreignAbove foreign) sound).map fun _ after => after
  | setBaseVelocity tv rv => exact setBaseVelocitySound tv rv sound
  | getOdometryPosition x y theta =>
    exact getOdometryPositionSound ⟨foreignAbove foreign.1, foreignAbove foreign.2.1, foreignAbove foreign.2.2⟩ sound
  | readConfiguration query timeout =>
    exact (readConfigurationSound timeout (foreignAbove foreign) sound).map fun _ after => after

theorem performSound {calls : List Call} (foreign : ∀ c ∈ calls, Foreign c) (sound : Sound cl) :
    KeepsSound (perform cl calls) := by
  induction calls generalizing cl with
  | nil => exact sound
  | cons c rest ih =>
    exact (callSound (foreign c List.mem_cons_self) sound).bind fun next sound =>
      ih (fun other member => foreign other (List.mem_cons_of_mem c member)) sound

end Calls

/-! A client just initialised. -/

theorem installAllFold (ops : ClientOp → PacketOperations Unit) (h : PacketHandler ClientOp) (ps : List ClientOp) :
    ps.foldl (fun h op => (installPacket ops h op).2) h = PacketHandler.installAll ops h ps := by
  induction ps generalizing h with
  | nil => rfl
  | cons p rest ih => exact ih _

theorem initTable (blank : PacketHandler ClientOp) (memory : Memory) (fd : Serial) (t : PacketType) (op : ClientOp) :
    (init blank memory fd).packetHandler.entry t = some op ↔ op ∈ installedOps ∧ op.type = t := by
  have handler : (init blank memory fd).packetHandler = _ := installAllFold (operation ⟨memory, ()⟩) _ installedOps
  rw [handler]
  constructor
  · intro found
    rcases installedSlot found with old | new
    · rw [emptyAfterInitialize] at old
      contradiction
    · exact new
  · rintro ⟨installed, rfl⟩
    have inRange : ∀ op ∈ installedOps, op.type.toNat < packetTypeMax := by decide
    have once : installedOps.Pairwise fun p q => p.type ≠ q.type := by decide
    exact installedFound inRange once (fun _ _ => emptyAfterInitialize blank _) installed

theorem initSound (blank : PacketHandler ClientOp) (memory : Memory) (fd : Serial) : Sound (init blank memory fd) := by
  have handler : (init blank memory fd).packetHandler = _ := installAllFold (operation ⟨memory, ()⟩) _ installedOps
  refine ⟨[], initTable blank memory fd, .hunting ?_, by simp, ?_⟩
  · rw [handler, installAllFn]
    rfl
  · rw [handler, installAllTx]
    exact validEmpty (by decide)

end OrazioLogger.OrazioClient
