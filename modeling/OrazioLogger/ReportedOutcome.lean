import OrazioLogger.BatchAnswers
import OrazioLogger.AwaitedAnswer

/-! What a blocking send tells the host of the handler: the response takes the result to the client, and the call
returns success whatever that result is. -/
namespace OrazioLogger.Firmware
open ByteMemory RingBuffer OrazioPackets OrazioComm DeferredPacketHandler
open OrazioClient (load16 store16 Sends ReturnedBy Foreign freshClient)

variable {F : Type}

/-! When a handler ends in success. -/

/- The joint parameters with those of the packet among them. -/
def jointStored (memory : Memory) (p : Addr) (f : State F) : State F :=
  copyPacket .jointParam (copyOffset .jointParam memory p) memory p (setRxSeq memory p f)

/- A joint of the table, bridges whose pins the board takes, parameters that there are. -/
def Accepts (b : Board F) (action : DeferredAction) (p : Addr) (o : Outside F) : Prop :=
  match action with
  | .handlePacket args => refused args o.memory p = false ∧
      (args = .jointParam → AllAccepted b (jointStored o.memory p o.app) 0 numJoints)
  | .handleParamCtl => o.memory (p + 4) = paramRequest ∨
      (o.memory (p + 4) = paramLoadAction ∨ o.memory (p + 4) = paramSaveAction) ∧
        (targetGlobal b.sonar (o.memory (p + 5))).isSome

section Outcome
variable {b : Board F} {o : Outside F} {p : Addr} {action : DeferredAction}

theorem jointsInitSuccess (b : Board F) (f : State F) : (jointsInit b f).1 = .success ↔ AllAccepted b f 0 numJoints := by
  have ends := jointsInitEnds b f
  constructor
  · intro success
    by_contra refused
    rcases ends.failed refused with failed | failed <;> rw [success] at failed <;> cases failed
  · exact ends.done

theorem handledSuccess (b : Board F) (args : PacketHandlerArgs) (p : Addr) (o : Outside F) :
    (handled b args p o).1 = .success ↔
      (args = .jointParam → AllAccepted b (jointStored o.memory p o.app) 0 numJoints) := by
  cases args with
  | jointParam =>
    refine (jointsInitSuccess b (jointStored o.memory p o.app)).trans ?_
    simp
  | systemParam | driveControl | driveParam | sonarParam | jointControl =>
    exact ⟨fun _ same => (nomatch same), fun _ => rfl⟩

theorem paramLoadSuccess (paramType : UInt8) (index : Int) (f : State F) :
    (paramLoad b paramType index f).1 = .success ↔ (targetGlobal b.sonar paramType).isSome := by
  unfold paramLoad targetGlobal
  split_ifs <;> simp

theorem paramSaveSuccess (paramType : UInt8) (index : Int) (f : State F) :
    (paramSave b paramType index f).1 = .success ↔ (targetGlobal b.sonar paramType).isSome := by
  unfold paramSave targetGlobal
  split_ifs <;> simp

theorem requestedSuccess (b : Board F) (p : Addr) (o : Outside F) :
    (requested b p o).1 = .success ↔ Accepts b .handleParamCtl p o := by
  unfold requested Accepts
  dsimp only
  split
  · rename_i request
    exact ⟨fun _ => Or.inl request, fun _ => rfl⟩
  rename_i noRequest
  split
  · rename_i load
    rw [paramLoadSuccess]
    exact ⟨fun known => Or.inr ⟨Or.inl load, known⟩, fun accepts => (accepts.resolve_left noRequest).2⟩
  rename_i noLoad
  split
  · rename_i save
    rw [paramSaveSuccess]
    exact ⟨fun known => Or.inr ⟨Or.inr save, known⟩, fun accepts => (accepts.resolve_left noRequest).2⟩
  · rename_i noSave
    refine ⟨fun success => (nomatch success), fun accepts => ?_⟩
    exact ((accepts.resolve_left noRequest).1.elim noLoad noSave).elim

theorem outcomeSuccess (b : Board F) (action : DeferredAction) (p : Addr) (o : Outside F) :
    outcome b action p o = .success ↔ Accepts b action p o := by
  cases action with
  | handleParamCtl => exact requestedSuccess b p o
  | handlePacket args =>
    unfold outcome Accepts
    dsimp only
    cases taken : refused args o.memory p with
    | true =>
      rw [if_pos rfl]
      exact ⟨fun success => (nomatch success), fun accepts => (nomatch accepts.1)⟩
    | false =>
      rw [if_neg Bool.false_ne_true, handledSuccess]
      exact ⟨fun all => ⟨rfl, all⟩, fun accepts => accepts.2⟩

theorem resultByteSuccess (result : PacketStatus) : resultByte result = resultByte .success ↔ result = .success := by
  cases result <;> decide

end Outcome

/-! The response record when the handler is done: what it has sent. -/

def answered (b : Board F) (action : DeferredAction) (p : Addr) (o : Outside F) : List UInt8 :=
  load ((act b action p o).app.globals .response) 0 sizeofResponsePacket.toNat

section Answered
variable {b : Board F} {o : Outside F} {p : Addr} {action : DeferredAction} {sonar : Bool}

theorem sendPacketHolds {g : Global} {offset : Nat} (packet : PacketAt g offset) (other : g ≠ .systemStatus) :
    load ((sendPacket g offset o).2.app.globals g) offset g.size.toNat = stamped g offset o.app := by
  have inside : offset + sizeofPacketHeader.toNat ≤ g.extent := packet.inside
  have held : (sendPacket g offset o).2.app.globals g = store16 (o.app.globals g) (offset + 2) o.app.globalSeq := by
    unfold sendPacket
    rw [if_pos inside]
    dsimp only
    rw [countSentOther _ _ other]
    exact setSame _ _ _
  rw [held]
  rfl

theorem answeredBody (marked : ∀ k, k < 2 → Marked b.sonar k o.app) (found : actionOf b.sonar (o.memory p) = some action)
    (valid : ValidPacket o.memory p action) :
    answered b action p o = responseBody o.app.globalSeq (o.memory p) (load16 o.memory (p + 2)) (outcome b action p o) := by
  have keeps := preparedKeeps (b := b) found valid
  have epoch : (prepared b action p o).globalSeq = o.app.globalSeq := preparedUntold.epoch
  have echoed : SendsOnly (withApp o (prepared b action p o))
      (sendEcho (echoPlace b action o.memory p) (withApp o (prepared b action p o))) := sendEchoOnly valid _
  unfold answered
  rw [actAnswers valid]
  generalize sendEcho (echoPlace b action o.memory p) (withApp o (prepared b action p o)) = later at echoed
  have seq : later.app.globalSeq = o.app.globalSeq := by
    rw [echoed.same]
    exact epoch
  have memory : later.memory = o.memory := echoed.memory
  unfold sendResponse
  refine (sendPacketHolds (g := .response) (.single (by decide)) (by decide)).trans ?_
  refine (responseStamped (o := later) (fun k low => echoed.marked low (keeps.marked k low (marked k low))) p _).trans ?_
  rw [seq, memory]

/- It is the last packet that the handler puts in the ring. -/
theorem answeredEnqueued (intact : Intact b.sonar o) (found : actionOf b.sonar (o.memory p) = some action)
    (valid : ValidPacket o.memory p action)
    (room : o.baseHandler.tx.size + roomFor (repliesTo b.sonar o.memory p) ≤ packetSizeMax) :
    ∃ echo, PacketHandler.waiting (act b action p o).baseHandler =
      PacketHandler.waiting o.baseHandler ++ echo ++ PacketHandler.frame (answered b action p o) := by
  obtain ⟨group, answers, enqueues⟩ := actEnqueues intact found valid room
  rw [enqueues.waiting, answeredBody intact.marked found valid]
  cases answers with
  | alone silent => exact ⟨[], by simp⟩
  | @echoed g body told parameter numbered => exact ⟨PacketHandler.frame body, by simp⟩

end Answered

/-! The host. -/

/- The packet the client sent, where the firmware received it: its type and the number it was given. -/
structure Delivered (cl : OrazioClient) (p : Addr) (memory : Memory) (q : Addr) : Prop where
  type : memory q = cl.memory p
  number : load16 memory (q + 2) = cl.globalSeq + 1

/- Whenever this answer makes the call return success, it says success. -/
def ReportsSuccess (cl : OrazioClient) (p : Addr) (timeout : Int) (answer : List UInt8) : Prop :=
  ∀ (line : Serial) later, OrazioClient.sendPacket { cl with fd := line } p timeout = .ok (.success, later) →
    ReturnedBy { cl with fd := line } later p answer → answer.getD 7 0 = resultByte .success

section Host
variable {cl : OrazioClient} {seen : List UInt8} {p q : Addr} {b : Board F} {o : Outside F} {action : DeferredAction}
  {timeout : Int}

/- A response to `p`, whatever its result, ends the call if it is read first. -/
theorem anyResultReturns (blocking : 0 < timeout) (own : OrazioClient.clientEnd ≤ p) (receiving : OrazioClient.Receiving cl seen)
    (sends : Sends cl p) (delivered : Delivered cl p o.memory q) (seq : PacketSeq) (result : PacketStatus) :
    ∃ line later, OrazioClient.sendPacket { cl with fd := line } p timeout = .ok (.success, later) ∧
      ReturnedBy { cl with fd := line } later p (responseBody seq (o.memory q) (load16 o.memory (q + 2)) result) := by
  refine OrazioClient.answerReturns blocking own receiving sends ⟨_, rfl⟩ rfl ⟨rfl, delivered.type, ?_⟩
  exact (OrazioClient.bytesOfWord (load16 o.memory (q + 2))).trans delivered.number

end Host

/- The call reports what the handler did exactly if the handler ends in success, or the packet is not sent at all. -/
theorem successReported (blank : PacketHandler ClientOp) (memory : Memory) (fd : Serial) (calls : List OrazioClient.Call)
    (foreign : ∀ c ∈ calls, Foreign c) (cl : OrazioClient)
    (reached : OrazioClient.perform (OrazioClient.init blank memory fd) calls = .ok cl) (p : Addr) (own : OrazioClient.clientEnd ≤ p)
    (timeout : Int) (blocking : 0 < timeout) (b : Board F) (o : Outside F) (intact : Intact b.sonar o) (q : Addr)
    (action : DeferredAction) (found : actionOf b.sonar (o.memory q) = some action) (valid : ValidPacket o.memory q action)
    (room : o.baseHandler.tx.size + roomFor (repliesTo b.sonar o.memory q) ≤ packetSizeMax)
    (delivered : Delivered cl p o.memory q) :
    (∃ echo, PacketHandler.waiting (act b action q o).baseHandler =
      PacketHandler.waiting o.baseHandler ++ echo ++ PacketHandler.frame (answered b action q o)) ∧
    (ReportsSuccess cl p timeout (answered b action q o) ↔ (Sends cl p → Accepts b action q o)) := by
  refine ⟨answeredEnqueued intact found valid room, ?_⟩
  obtain ⟨seen, receiving⟩ := (OrazioClient.performSound foreign (OrazioClient.initSound blank memory fd)).returned reached
  rw [answeredBody intact.marked found valid]
  constructor
  · intro reports sends
    obtain ⟨line, later, returned, last⟩ := anyResultReturns blocking own receiving sends delivered o.app.globalSeq
      (outcome b action q o)
    exact (outcomeSuccess b action q o).mp ((resultByteSuccess _).mp (reports line later returned last))
  · intro accepts line later returned _
    have sends : Sends cl p := by
      by_contra refused
      exact OrazioClient.sendPacketRefuses blocking (fun here => refused ((OrazioClient.sendsOnAnyLine line).mp here)) returned
    exact (resultByteSuccess _).mpr ((outcomeSuccess b action q o).mpr (accepts sends))

/- A request for the drive parameters. -/
def requestFill : List OrazioClient.Call :=
  [.fill 1000 paramControlPacketId, .fill 1001 sizeofParamControlPacket, .fill 1005 paramDrive]

def requestReceived : Outside Rat :=
  (firstEpoch (packetLine [[paramControlPacketId, sizeofParamControlPacket, 1, 0, paramRequest, paramDrive, 0]])).outside

theorem requestReported : ∃ cl, OrazioClient.perform freshClient requestFill = .ok cl ∧ Sends cl 1000 ∧
    (∃ echo, PacketHandler.waiting (act bench .handleParamCtl 512 requestReceived).baseHandler =
      PacketHandler.waiting requestReceived.baseHandler ++ echo ++
        PacketHandler.frame (answered bench .handleParamCtl 512 requestReceived)) ∧
    (ReportsSuccess cl 1000 1 (answered bench .handleParamCtl 512 requestReceived) ↔
      (Sends cl 1000 → Accepts bench .handleParamCtl 512 requestReceived)) := by
  let memory := store (store (store freshClient.memory 1000 paramControlPacketId) 1001 sizeofParamControlPacket) 1005 paramDrive
  have reached : OrazioClient.perform freshClient requestFill = .ok { freshClient with memory := memory } := by rfl
  refine ⟨_, reached, by decide +kernel, ?_⟩
  exact successReported _ _ _ requestFill (by decide) _ reached 1000 (by decide) 1 (by decide) bench requestReceived
    (firstEpochAnswerable _).intact 512 .handleParamCtl (by decide +kernel) (by decide +kernel) (by decide +kernel)
    ⟨by decide +kernel, by decide +kernel⟩

/- A command for a joint that there is not: the handler refuses it, and the host is told success. -/
def jointFill : List OrazioClient.Call :=
  [.fill 1000 jointControlPacketId, .fill 1001 sizeofJointControlPacket, .fill 1004 5]

def jointReceived : Outside Rat :=
  (firstEpoch (packetLine [[jointControlPacketId, sizeofJointControlPacket, 1, 0, 5, 0, 0, 0]])).outside

theorem refusalReportedAsSuccess : ∃ cl, OrazioClient.perform freshClient jointFill = .ok cl ∧
    Delivered cl 1000 jointReceived.memory 640 ∧
    actionOf false (jointReceived.memory 640) = some (.handlePacket .jointControl) ∧
    ValidPacket jointReceived.memory 640 (.handlePacket .jointControl) ∧
    outcome bench (.handlePacket .jointControl) 640 jointReceived = .genericError ∧
    (answered bench (.handlePacket .jointControl) 640 jointReceived).getD 7 0 = resultByte .genericError ∧
    ∃ line later, OrazioClient.sendPacket { cl with fd := line } 1000 1 = .ok (.success, later) ∧
      ReturnedBy { cl with fd := line } later 1000 (answered bench (.handlePacket .jointControl) 640 jointReceived) := by
  let memory := store (store (store freshClient.memory 1000 jointControlPacketId) 1001 sizeofJointControlPacket) 1004 5
  have reached : OrazioClient.perform freshClient jointFill = .ok { freshClient with memory := memory } := by rfl
  obtain ⟨_, waits⟩ := (OrazioClient.performSound (by decide) (OrazioClient.initSound _ _ _)).returned reached
  have found : actionOf false (jointReceived.memory 640) = some (.handlePacket .jointControl) := by decide +kernel
  have valid : ValidPacket jointReceived.memory 640 (.handlePacket .jointControl) := by decide +kernel
  have delivered : Delivered { freshClient with memory := memory } 1000 jointReceived.memory 640 :=
    ⟨by decide +kernel, by decide +kernel⟩
  have intact : Intact bench.sonar jointReceived := (firstEpochAnswerable _).intact
  have body := answeredBody intact.marked found valid
  have ends : outcome bench (.handlePacket .jointControl) 640 jointReceived = .genericError := by decide +kernel
  refine ⟨_, reached, delivered, found, valid, ends, ?_, ?_⟩
  · rw [body, ends]
    rfl
  · rw [body]
    exact anyResultReturns (by decide) (by decide) waits (by decide +kernel) delivered _ _

end OrazioLogger.Firmware
