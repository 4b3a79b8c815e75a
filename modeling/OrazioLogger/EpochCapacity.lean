import Mathlib.Algebra.Order.Ring.Int
import OrazioLogger.Support.BoundedBuffer
import OrazioLogger.PacketHeaders

/-! What a communication cycle puts into the transmit ring, which nothing empties before the cycle ends. -/
namespace OrazioLogger.Firmware
open ByteMemory RingBuffer BoundedBuffer Countdown OrazioPackets OrazioComm DeferredPacketHandler
open OrazioClient (store16)

variable {F : Type}

/-! One packet handed to `Orazio_sendPacket`, whatever its header says. -/

/- The size of the frame. -/
def frameAt (f : State F) (g : Global) (offset : Nat) : Int := (f.globals g (offset + 1)).toNat + 3

def Room (o : Outside F) (size : Int) : Prop := o.baseHandler.tx.size + size ≤ packetSizeMax

instance (o : Outside F) (size : Int) : Decidable (Room o size) := inferInstanceAs (Decidable (_ ≤ _))

/- The bytes of the packet, numbered. -/
def bodyAt (f : State F) (g : Global) (offset : Nat) : List UInt8 :=
  PacketHandler.packetBytes (store16 (f.globals g) (offset + 2) f.globalSeq) offset

def sendStatus (taken : Bool) : PacketStatus := if taken then .success else .txBufferFull

/- What the ring takes and what is remembered of the call. -/
structure Handed (o later : Outside F) (size : Int) (body : List UInt8) : Prop where
  ring : Valid packetSizeMax later.baseHandler.tx
  handler : PacketHandler.TransmitOnly o.baseHandler later.baseHandler
  waiting : PacketHandler.waiting later.baseHandler =
    PacketHandler.waiting o.baseHandler ++ if Room o size then PacketHandler.frame body else []
  length : later.baseHandler.tx.size = o.baseHandler.tx.size + if Room o size then size else 0
  results : later.app.sendResults = o.app.sendResults ++ [sendStatus (decide (Room o size))]

theorem sendPacketHanded {o : Outside F} (ring : Valid packetSizeMax o.baseHandler.tx) (g : Global) (offset : Nat) :
    Handed o (sendPacket g offset o).2 (frameAt o.app g offset) (bodyAt o.app g offset) := by
  unfold sendPacket
  dsimp only
  generalize began : (if offset + sizeofPacketHeader.toNat ≤ g.extent then o.app else o.app.faulted) = f
  have same : f.globals = o.app.globals ∧ f.globalSeq = o.app.globalSeq ∧ f.sendResults = o.app.sendResults := by
    rw [← began]
    split <;> exact ⟨rfl, rfl, rfl⟩
  have memory : (setWord f g (offset + 2) f.globalSeq).globals g = store16 (o.app.globals g) (offset + 2) o.app.globalSeq := by
    rw [setWord, setSame, same.1, same.2.1]
  have size : store16 (o.app.globals g) (offset + 2) o.app.globalSeq (offset + 1) = o.app.globals g (offset + 1) := by
    unfold store16
    rw [storeOther _ (Nat.ne_of_lt (by omega)), storeOther _ (Nat.ne_of_lt (by omega))]
  rw [memory]
  by_cases room : Room o (frameAt o.app g offset)
  · have free : ((store16 (o.app.globals g) (offset + 2) o.app.globalSeq (offset + 1)).toNat : Int) + 3 ≤
        packetSizeMax - o.baseHandler.tx.size := by
      rw [size]
      unfold Room frameAt at room
      omega
    obtain ⟨success, ringAfter, queued, only⟩ := PacketHandler.sendPacketQueues _ offset ring free
    have longer := PacketHandler.sendPacketSize _ offset ring free
    rw [size] at longer
    refine ⟨ringAfter, only, ?_, ?_, ?_⟩
    · rw [if_pos room]
      exact queued
    · rw [if_pos room]
      exact longer
    · rw [countSentResults, success, decide_eq_true room]
      exact congrArg (· ++ _) same.2.2
  · have full : packetSizeMax - o.baseHandler.tx.size <
        ((store16 (o.app.globals g) (offset + 2) o.app.globalSeq (offset + 1)).toNat : Int) + 3 := by
      rw [size]
      unfold Room frameAt at room
      omega
    rw [PacketHandler.sendPacketRefused full]
    refine ⟨ring, .refl _, ?_, ?_, ?_⟩
    · rw [if_neg room, List.append_nil]
    · rw [if_neg room, Int.add_zero]
    · rw [countSentResults, decide_eq_false room]
      exact congrArg (· ++ _) same.2.2

/-! Packets sent one after the other. -/

/- The bytes a packet takes in the ring: its own and the three around it. -/
def frameSize (g : Global) : Int := g.size.toNat + 3

structure Transmits (sonar : Bool) (packets : List Global) (o later : Outside F) : Prop where
  valid : Valid packetSizeMax later.baseHandler.tx
  fill : later.baseHandler.tx.size = filled packetSizeMax o.baseHandler.tx.size (packets.map frameSize)
  results : later.app.sendResults =
    o.app.sendResults ++ (taken packetSizeMax o.baseHandler.tx.size (packets.map frameSize)).map sendStatus
  headed : Headed sonar later.app

section Transmits
variable {sonar : Bool} {packets more : List Global} {b : Board F} {o mid later : Outside F} {g : Global} {offset : Nat}

theorem Transmits.refl (valid : Valid packetSizeMax o.baseHandler.tx) (headed : Headed sonar o.app) : Transmits sonar [] o o :=
  ⟨valid, rfl, by simp [taken], headed⟩

theorem Transmits.trans (first : Transmits sonar packets o mid) (second : Transmits sonar more mid later) :
    Transmits sonar (packets ++ more) o later := by
  refine ⟨second.valid, ?_, ?_, second.headed⟩
  · rw [List.map_append, filledAppend, ← first.fill]
    exact second.fill
  · rw [List.map_append, takenAppend, ← first.fill, second.results, first.results, List.map_append, List.append_assoc]

/- Changes in front of what is sent. -/
theorem Transmits.after {f : State F} (keeps : Keeps sonar o.app f) (transmits : Transmits sonar packets (withApp o f) later) :
    Transmits sonar packets o later := by
  refine ⟨transmits.valid, transmits.fill, ?_, transmits.headed⟩
  rw [transmits.results, ← keeps.results]
  rfl

theorem SendsOnly.marked {k : Nat} (only : SendsOnly o later) (low : k < 2) (marked : Marked sonar k o.app) :
    Marked sonar k later.app :=
  marked.outside low only.globals (fun _ _ _ packet => packet.unstamped) (by rw [only.same])

theorem SendsOnly.headed (only : SendsOnly o later) (headed : Headed sonar o.app) : Headed sonar later.app :=
  markedHeaded.mp (only.marked (by decide) (markedHeaded.mpr headed))

theorem sendPacketTransmits (valid : Valid packetSizeMax o.baseHandler.tx) (headed : Headed sonar o.app) (packet : PacketAt g offset) :
    Transmits sonar [g] o (sendPacket g offset o).2 := by
  have handed := sendPacketHanded valid g offset
  have size : frameAt o.app g offset = frameSize g := by
    rw [frameAt, headed.globals g offset packet, frameSize]
  rw [size] at handed
  have kept := (sendPacketOnly o packet).headed headed
  by_cases room : Room o (frameSize g)
  · have fits : o.baseHandler.tx.size + frameSize g ≤ packetSizeMax := room
    refine ⟨handed.ring, ?_, ?_, kept⟩
    · rw [handed.length, if_pos room]
      simp only [List.map_cons, List.map_nil, filled, if_pos fits]
    · rw [handed.results, decide_eq_true room]
      simp only [List.map_cons, List.map_nil, taken, if_pos fits]
  · have full : ¬ o.baseHandler.tx.size + frameSize g ≤ packetSizeMax := room
    refine ⟨handed.ring, ?_, ?_, kept⟩
    · rw [handed.length, if_neg room, Int.add_zero]
      simp only [List.map_cons, List.map_nil, filled, if_neg full]
    · rw [handed.results, decide_eq_false room]
      simp only [List.map_cons, List.map_nil, taken, if_neg full]

/- A packet other than the message leaves the message alone. -/
theorem sendPacketMessage (other : g ≠ .stringMessage) :
    (sendPacket g offset o).2.app.globals .stringMessage = o.app.globals .stringMessage :=
  sendPacketOther offset o other.symm (by decide)

/- The answers to the packets of the host: nothing else is sent, and no message comes or goes. -/
structure Replies sonar (packets : List Global) (o later : Outside F) : Prop where
  transmits : Transmits sonar packets o later
  message : later.app.globals .stringMessage = o.app.globals .stringMessage

theorem Replies.trans (first : Replies sonar packets o mid) (second : Replies sonar more mid later) : Replies sonar (packets ++ more) o later :=
  ⟨first.transmits.trans second.transmits, second.message.trans first.message⟩

theorem Replies.after {f : State F} (keeps : Keeps sonar o.app f) (replies : Replies sonar packets (withApp o f) later) :
    Replies sonar packets o later := ⟨replies.transmits.after keeps, replies.message.trans keeps.message⟩

theorem sendPacketReplies (valid : Valid packetSizeMax o.baseHandler.tx) (headed : Headed sonar o.app) (packet : PacketAt g offset)
    (other : g ≠ .stringMessage) : Replies sonar [g] o (sendPacket g offset o).2 :=
  ⟨sendPacketTransmits valid headed packet, sendPacketMessage other⟩

theorem responseKeeps (p : Addr) (result : PacketStatus) (memory : Memory) (f : State F) :
    Keeps sonar f (f.set .response (responseTo p result memory (f.globals .response))) := by
  refine behindKeeps (g := .response) ((SameOutside.refl f).set fun a outside => ?_) (by decide) (by decide) rfl rfl
  exact responseToOutside p result memory _ fun inside => outside ⟨rfl, le_trans (by decide) inside.1⟩

theorem sendResponseReplies (valid : Valid packetSizeMax o.baseHandler.tx) (headed : Headed sonar o.app) (p : Addr)
    (result : PacketStatus) : Replies sonar [.response] o (sendResponse p result o) := by
  have keeps : Keeps sonar o.app _ := responseKeeps p result o.memory o.app
  exact Replies.after keeps (sendPacketReplies valid (keeps.headed headed) (.single (by decide)) (by decide))

end Transmits

/-! The answers to a packet, by its command. -/

def targetGlobal (sonar : Bool) (paramType : UInt8) : Option Global :=
  if paramType = paramSystem then some .systemParams
  else if paramType = paramJointsSingle then some .jointParams
  else if paramType = paramDrive then some .driveParams
  else if paramType = paramSonar ∧ sonar then some .sonarParams
  else none

def Command.replies (sonar : Bool) : Command → List Global
  | .systemParam _ => [.systemParams, .response]
  | .driveParam => [.driveParams, .response]
  | .sonarParam => [.sonarParams, .response]
  | .jointParam => [.jointParams, .response]
  | .driveControl _ | .jointControl .. | .refused => [.response]
  | .paramControl _ paramType => (targetGlobal sonar paramType).toList ++ [.response]

section Answers
variable {b : Board F} {o : Outside F} {p : Addr}

theorem targetNamed (b : Board F) (paramType index : UInt8) :
    (target b paramType index).map Prod.fst = targetGlobal b.sonar paramType := by
  unfold target targetGlobal
  split_ifs <;> rfl

/- What is echoed, then the response. -/
theorem repliesPlace (b : Board F) (action : DeferredAction) (memory : Memory) (p : Addr) :
    (commandOf memory p action).replies b.sonar = ((echoPlace b action memory p).map Prod.fst).toList ++ [.response] := by
  cases action with
  | handleParamCtl =>
    unfold echoPlace
    dsimp only
    rw [targetNamed]
    rfl
  | handlePacket args =>
    change (if refused args memory p then Command.refused else commandTaken memory p args).replies b.sonar = _
    unfold echoPlace
    dsimp only
    cases refused args memory p with
    | true => rfl
    | false => cases args <;> rfl

theorem actReplies {action : DeferredAction} (valid : Valid packetSizeMax o.baseHandler.tx) (headed : Headed b.sonar o.app)
    (found : actionOf b.sonar (o.memory p) = some action) (packet : ValidPacket o.memory p action) :
    Replies b.sonar ((commandOf o.memory p action).replies b.sonar) o (act b action p o) := by
  have keeps : Keeps b.sonar o.app (prepared b action p o) := preparedKeeps found packet
  have ready := keeps.headed headed
  rw [actAnswers packet, repliesPlace]
  refine Replies.after keeps ?_
  cases place : echoPlace b action o.memory p with
  | none => exact sendResponseReplies (o := withApp o (prepared b action p o)) valid ready p _
  | some told =>
    obtain ⟨parameter, inside⟩ := echoPlaceAt packet place
    have quiet : told.1 ≠ .stringMessage := by
      intro message
      rw [message] at parameter
      exact absurd parameter (by decide)
    have sent := sendPacketReplies (o := withApp o (prepared b action p o)) valid ready inside quiet
    exact sent.trans (sendResponseReplies sent.transmits.valid sent.transmits.headed p _)

end Answers

/-! The cycle. -/

section Cycle
variable {b : Board F} {line : Line} {m : Machine F} {o : Outside F}

theorem processLoopReplies (pending : List Addr) (tabled : Tabled b.sonar m) (full : Valid packetSizeMax m.outside.baseHandler.tx)
    (headed : Headed b.sonar m.outside.app) (valid : ∀ p ∈ pending, ValidPending b.sonar m.outside.memory p) :
    Replies b.sonar ((commandsOf b.sonar m.outside.memory pending).flatMap (Command.replies b.sonar)) m.outside
      (processLoop (act b) m pending).1.outside := by
  induction pending generalizing m with
  | nil => exact ⟨.refl full headed, rfl⟩
  | cons p rest ih =>
    obtain ⟨action, found, validHere⟩ := valid p List.mem_cons_self
    have processed := processPacketProcessed tabled found validHere
    have outside := processPacketActs tabled found
    have first := actReplies full headed found validHere
    rw [← outside] at first
    have second := ih processed.tabled first.transmits.valid first.transmits.headed fun q member => by
      rw [processed.memory]
      exact valid q (List.mem_cons_of_mem p member)
    have command : commandAt b.sonar m.outside.memory p = some (commandOf m.outside.memory p action) := by
      rw [commandAt, found]
      rfl
    rw [processed.memory] at second
    rw [commandsOf, List.filterMap_cons_some command, List.flatMap_cons]
    exact first.trans second

theorem sendAllReplies (packets : List (Global × Nat)) (full : Valid packetSizeMax o.baseHandler.tx) (headed : Headed b.sonar o.app)
    (sent : ∀ packet ∈ packets, PacketAt packet.1 packet.2 ∧ packet.1 ≠ .stringMessage) :
    Replies b.sonar (packets.map Prod.fst) o (sendAll packets o) := by
  induction packets generalizing o with
  | nil => exact ⟨.refl full headed, rfl⟩
  | cons packet rest ih =>
    obtain ⟨place, other⟩ := sent packet List.mem_cons_self
    have first := sendPacketReplies full headed place other
    exact first.trans (ih first.transmits.valid first.transmits.headed fun next member =>
      sent next (List.mem_cons_of_mem packet member))

/- The packets of the mask, as the control has it. -/
def periodic (sonar : Bool) (c : Control) : List Global :=
  let mask := c.settings.periodicPacketMask
  (if mask &&& pSystemStatusFlag ≠ 0 then [.systemStatus] else []) ++
    (if mask &&& pJointStatusFlag ≠ 0 then List.replicate numJoints .jointStatus else []) ++
    (if mask &&& pDriveStatusFlag ≠ 0 then [.driveStatus] else []) ++
    if sonar ∧ mask &&& pSonarStatusFlag ≠ 0 ∧ c.sonarReady then [.sonarStatus] else []

theorem periodicNamed (b : Board F) (f : State F) : (periodicPackets b f).map Prod.fst = periodic b.sonar (control f) := by
  have mask : (control f).settings.periodicPacketMask = periodicPacketMask f := rfl
  have ready : (control f).sonarReady = f.sonarReady := rfl
  unfold periodicPackets periodic
  rw [mask, ready]
  dsimp only
  rw [List.map_append, List.map_append, List.map_append]
  split_ifs <;> rfl

theorem periodicNoMessage (b : Board F) (f : State F) {packet : Global × Nat} (member : packet ∈ periodicPackets b f) :
    packet.1 ≠ .stringMessage := by
  have named : packet.1 ∈ periodic b.sonar (control f) := by
    rw [← periodicNamed]
    exact List.mem_map_of_mem member
  intro message
  rw [message] at named
  unfold periodic at named
  dsimp only at named
  split_ifs at named <;> simp at named

def message (f : State F) : List Global := if messagePending f then [.stringMessage] else []

theorem sendMessageTransmits (full : Valid packetSizeMax o.baseHandler.tx) (headed : Headed b.sonar o.app) :
    Transmits b.sonar (message o.app) o (sendMessage o) := by
  unfold message sendMessage
  split
  · have sent := sendPacketTransmits (g := .stringMessage) full headed (.single (by decide))
    have marked : Marked b.sonar 1 (setWord (sendPacket .stringMessage 0 o).2.app .stringMessage 2 0) :=
      (markedHeaded.mpr sent.headed).behind (by decide) ((SameOutside.refl _).setWord 0 ⟨rfl, by decide⟩ ⟨rfl, by decide⟩)
        (by decide) rfl
    exact ⟨sent.valid, sent.fill, sent.results, markedHeaded.mp marked⟩
  · exact .refl full headed

/- Everything a cycle sends, in its order. -/
def cyclePackets (b : Board F) (line : Line) (m : Machine F) : List Global :=
  (batch b line m).flatMap (Command.replies b.sonar) ++
    (periodic b.sonar (effects b.sonar (control m.outside.app) (batch b line m)) ++
      (message m.outside.app ++ [.endEpoch]))

theorem ReceptionOnly.keeps {sonar : Bool} {later : Machine F} (only : ReceptionOnly m later) :
    Keeps sonar m.outside.app later.outside.app := by
  refine keepsOutside only.globals ?_ (fun a here => nomatch here.1) (by rw [only.same]) (by rw [only.same])
  rintro g offset k packet low ⟨rfl, place⟩
  have start := startAlone (by decide) packet
  omega

theorem receivedRing (bytes : List UInt8) (m : Machine F) :
    (bytes.foldl receiveByte m).outside.baseHandler.tx = m.outside.baseHandler.tx := by
  induction bytes generalizing m with
  | nil => rfl
  | cons c rest ih =>
    have received : (rxByte m c).2.outside.baseHandler.tx = m.outside.baseHandler.tx :=
      (PacketHandler.rxByteReceiveOnly operation m.outside.baseHandler m.world c).tx
    rw [List.foldl_cons, ih, ← received]
    unfold receiveByte
    dsimp only
    split <;> split <;> rfl

theorem messageOf {f later : State F} (same : later.globals .stringMessage = f.globals .stringMessage) :
    message later = message f := by
  unfold message messagePending
  rw [same]

theorem cycleTransmits (tabled : Tabled b.sonar m) (valid : ValidBatch b line m) (full : Valid packetSizeMax m.outside.baseHandler.tx)
    (headed : Headed b.sonar m.outside.app) :
    Transmits b.sonar (cyclePackets b line m) m.outside (completeEpoch b (processPending b (beginEpoch line m))).outside := by
  have begun : Keeps b.sonar m.outside.app (beginEpoch line m).outside.app := (beginEpochOnly line m).keeps
  have ring : (beginEpoch line m).outside.baseHandler.tx = m.outside.baseHandler.tx := receivedRing line.received _
  have replies : Replies b.sonar ((batch b line m).flatMap (Command.replies b.sonar)) (beginEpoch line m).outside
      (processPending b (beginEpoch line m)).outside :=
    processLoopReplies _ (beginEpochTabled line tabled) (by rw [ring]; exact full) (begun.headed headed) valid
  have effect : control (processPending b (beginEpoch line m)).outside.app =
      effects b.sonar (control m.outside.app) (batch b line m) := by
    rw [(processPendingProcessed (beginEpochTabled line tabled) valid).control, (beginEpochOnly line m).control]
    rfl
  have said := messageOf (replies.message.trans begun.message)
  let o := (processPending b (beginEpoch line m)).outside
  have statuses := sendAllReplies (periodicPackets b o.app) replies.transmits.valid replies.transmits.headed
    fun packet member => ⟨periodicPacketAt b o.app member, periodicNoMessage b o.app member⟩
  have told := sendMessageTransmits statuses.transmits.valid statuses.transmits.headed
  have closed := sendPacketTransmits (g := .endEpoch) told.valid told.headed (.single (by decide))
  have answers := (replies.transmits.trans (statuses.transmits.trans (told.trans closed)))
  rw [messageOf statuses.message, said, periodicNamed, effect] at answers
  have fill := answers.fill
  have results := answers.results
  rw [ring] at fill results
  rw [begun.results] at results
  exact ⟨answers.valid, fill, results, answers.headed⟩

/- What the boot and the end of every cycle leave for the next one. -/
structure Ready (b : Board F) (m : Machine F) : Prop where
  tabled : Tabled b.sonar m
  headed : Headed b.sonar m.outside.app
  ring : Valid packetSizeMax m.outside.baseHandler.tx
  drained : m.outside.baseHandler.tx.size = 0

end Cycle

/-! Every cycle of a run finds the firmware ready. -/

section Runs
variable {b : Board F} {turn : Turn} {s later : Main F}

theorem drainEmpties (turns : Nat) (h : PacketHandler PacketType) (valid : Valid packetSizeMax h.tx) (enough : h.tx.size ≤ turns) :
    Valid packetSizeMax (drain turns h).2.tx ∧ (drain turns h).2.tx.size = 0 := by
  induction turns generalizing h with
  | zero =>
    have low := valid.sizeLow
    exact ⟨valid, by simp only [drain]; omega⟩
  | succ turns ih =>
    unfold drain
    split
    · rename_i empty
      exact ⟨valid, empty⟩
    · rename_i some
      obtain ⟨waits, validAfter, -⟩ := PacketHandler.txByteTakes valid some
      have before : ((PacketHandler.waiting h).length : Int) = h.tx.size := contentsLength valid
      have after : ((PacketHandler.waiting (PacketHandler.txByte h).2).length : Int) = (PacketHandler.txByte h).2.tx.size :=
        contentsLength validAfter
      rw [waits, List.length_cons] at before
      exact ih _ validAfter (by push_cast at before enough; omega)

theorem Ready.unsent (ready : Ready b s.machine) (unsent : Unsent b.sonar s later) (tabled : Tabled b.sonar later.machine) :
    Ready b later.machine := by
  refine ⟨tabled, unsent.app.headed ready.headed, ?_, ?_⟩
  · rw [unsent.handler]
    exact ready.ring
  · rw [unsent.handler]
    exact ready.drained

theorem commHandleReady {line : Line} {m : Machine F} (ready : Ready b m) (valid : ValidBatch b line m) :
    Ready b (commHandle b line m).2 := by
  have transmits := cycleTransmits ready.tabled valid ready.ring ready.headed
  have tabled := (processPendingProcessed (beginEpochTabled line ready.tabled) valid).tabled
  have flushed := drainEmpties _ _ transmits.valid (Int.self_le_toNat _)
  have counted : Keeps b.sonar (completeEpoch b (processPending b (beginEpoch line m))).outside.app
      (commHandle b line m).2.outside.app := wordKeeps _ _ (by decide) (by decide) (by decide)
  exact ⟨tabled, counted.headed transmits.headed, flushed.1, flushed.2⟩

theorem beforeCommReady (guarded : Guarded b.sonar s) (ready : Ready b s.machine) :
    Ready b (beforeComm b turn (idleTurn b s turn)).machine :=
  ready.unsent ((idleTurnUnsent b s turn).trans (beforeCommUnsent b turn _)) (guarded.carried (beforeCommTurn b s turn)).tabled

theorem loopTurnReady (guarded : Guarded b.sonar s) (sound : Sound b s turn) (ready : Ready b s.machine) :
    Ready b (loopTurn b s turn).machine := by
  have next := (loopTurnGuarded guarded sound).tabled
  cases handled : handles b s turn with
  | false =>
    rw [loopTurnIdle handled] at next ⊢
    exact ready.unsent (idleTurnUnsent b s turn) next
  | true =>
    have before : Ready b (beforeComm b turn (idleTurn b s turn)).machine := beforeCommReady guarded ready
    rw [loopTurnHandled handled] at next ⊢
    exact (commHandleReady before (sound handled).1).unsent (watchedUnsent b turn _ _) next

theorem readyAlways {buffers : PacketBuffers} {base : PacketHandler PacketType} {memory eeprom : Memory} {turns : List Turn}
    (bound : Bound (boot b buffers base memory eeprom).app)
    (slots : OrazioClient.load32 eeprom protocolVersionOffset = orazioProtocolVersion → HeadedSlots b.sonar eeprom)
    (sound : Each (loopTurn b) (Sound b) (boot b buffers base memory eeprom) turns) :
    Ready b (loop b (boot b buffers base memory eeprom) turns).machine := by
  have guarded := bootGuarded bound
  obtain ⟨marked, ring⟩ : Marked b.sonar 1 (boot b buffers base memory eeprom).app ∧
      (boot b buffers base memory eeprom).machine.outside.baseHandler.tx = ⟨0, 0, 0⟩ := bootMarked (by decide) slots
  have ready : Ready b (boot b buffers base memory eeprom).machine := by
    refine ⟨guarded.tabled, markedHeaded.mp marked, ?_, ?_⟩
    · rw [ring]
      exact validEmpty (by decide)
    · rw [ring]
  have steps : ∀ s turn, Guarded b.sonar s ∧ Ready b s.machine → Sound b s turn →
      Guarded b.sonar (loopTurn b s turn) ∧ Ready b (loopTurn b s turn).machine :=
    fun s turn inv sound => ⟨loopTurnGuarded inv.1 sound, loopTurnReady inv.1 sound inv.2⟩
  exact (sound.kept steps ⟨guarded, ready⟩).2

end Runs

/-! When the epoch is closed. -/

section Closes
variable {b : Board F} {line : Line} {m : Machine F}

/- What the sends of a cycle returned. -/
def cycleResults (b : Board F) (line : Line) (m : Machine F) : List PacketStatus :=
  (commHandle b line m).2.outside.app.sendResults.drop m.outside.app.sendResults.length

theorem epochCloses (ready : Ready b m) (valid : ValidBatch b line m) :
    .txBufferFull ∉ cycleResults b line m ↔ ((cyclePackets b line m).map frameSize).sum ≤ packetSizeMax := by
  have transmits := cycleTransmits ready.tabled valid ready.ring ready.headed
  have results : cycleResults b line m = (taken packetSizeMax 0 ((cyclePackets b line m).map frameSize)).map sendStatus := by
    have appended := transmits.results
    rw [ready.drained] at appended
    exact (congrArg (List.drop m.outside.app.sendResults.length) appended).trans List.drop_left
  have refused : .txBufferFull ∈ cycleResults b line m ↔ false ∈ taken packetSizeMax 0 ((cyclePackets b line m).map frameSize) := by
    rw [results, List.mem_map]
    constructor
    · rintro ⟨taken, member, same⟩
      cases taken with
      | true => cases same
      | false => exact member
    · exact fun member => ⟨false, member, rfl⟩
  have positive : ∀ size ∈ (cyclePackets b line m).map frameSize, 0 ≤ size := by
    intro size member
    obtain ⟨g, -, rfl⟩ := List.mem_map.mp member
    unfold frameSize
    omega
  rw [refused, allTaken positive (by decide), zero_add]

end Closes

theorem bootedReady : Ready bench booted.machine := by
  have ready : Ready bench (loop bench booted []).machine :=
    readyAlways (by decide +kernel) (fun same => absurd same (by decide)) trivial
  exact ready

def driveParamPacket : List UInt8 := initialBytes bench .driveParams

/- Both parameter packets and a control packet are answered in the cycle, since the first one asks for fewer statuses. -/
def servedLine : Line := packetLine [systemParamPacket.set 20 1, jointControlPacket, driveParamPacket]

theorem servedEpochCloses :
    cyclePackets bench servedLine booted.machine = [.systemParams, .response, .response, .driveParams, .response, .systemStatus,
      .stringMessage, .endEpoch] ∧
    .txBufferFull ∉ cycleResults bench servedLine booted.machine := by
  have short : ((cyclePackets bench servedLine booted.machine).map frameSize).sum ≤ packetSizeMax := by decide +kernel
  exact ⟨by decide +kernel, (epochCloses bootedReady (by decide +kernel)).mpr short⟩

/- Two of each of the two kinds fill the ring up to six bytes: the end of the epoch is refused. -/
theorem epochLeftOpen : let line := packetLine [systemParamPacket, systemParamPacket, driveParamPacket, driveParamPacket]
    ValidBatch bench line booted.machine ∧ Ready bench booted.machine ∧
      cyclePackets bench line booted.machine = [.systemParams, .response, .systemParams, .response, .driveParams, .response,
        .driveParams, .response, .systemStatus, .jointStatus, .jointStatus, .driveStatus, .stringMessage, .endEpoch] ∧
      cycleResults bench line booted.machine =
        List.replicate 11 .success ++ [.txBufferFull, .txBufferFull, .txBufferFull] := by
  refine ⟨by decide +kernel, bootedReady, by decide +kernel, by decide +kernel⟩

end OrazioLogger.Firmware
