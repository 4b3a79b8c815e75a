import OrazioLogger.JointNumbers
import OrazioLogger.EpochSnapshot

/-! What a communication cycle puts on the line, packet by packet, as the client files it: the answers to the host, the
status packets with what the globals hold at the end of the cycle, a message, and the end of the epoch. -/
namespace OrazioLogger.Firmware
open ByteMemory RingBuffer Countdown OrazioPackets OrazioComm DeferredPacketHandler
open OrazioClient (load16 store16 EpochPacket Epoch installedOps endEpochOp endOfEpoch numJointsMax loadGetD)

variable {F : Type}

/-! The packets of the firmware at the client. -/

/- Where the client has its copy, or its copies. The two control packets only go the other way. -/
def clientPlace : Global → Addr
  | .systemParams => OrazioClient.systemParam
  | .systemStatus => OrazioClient.systemStatus
  | .driveParams => OrazioClient.driveParam
  | .driveStatus => OrazioClient.driveStatus
  | .jointParams => OrazioClient.jointParam
  | .jointStatus => OrazioClient.jointStatus
  | .stringMessage => OrazioClient.message
  | .sonarStatus => OrazioClient.sonarStatus
  | .sonarParams => OrazioClient.sonarParam
  | .response => OrazioClient.response
  | .endEpoch => OrazioClient.endEpoch
  | .driveControl | .jointControl => 0

def receivedAs (g : Global) : ClientOp := ⟨g.type, g.size, g = .jointParams ∨ g = .jointStatus, clientPlace g⟩

section Packets
variable {f : State F} {g : Global} {offset : Nat}

theorem receivedInstalled (packet : PacketAt g offset) : receivedAs g ∈ installedOps := by
  cases packet with
  | joint | jointStatus => decide
  | single sent => cases g <;> first | decide | exact absurd sent (by decide)

theorem receivedEnd (same : receivedAs g = endEpochOp) : g = .endEpoch := by
  have type : g.type = endEpochPacketId := congrArg ClientOp.type same
  cases g <;> first | rfl | exact absurd type (by decide)

/- The packets of a table carry the number of their entry. -/
theorem PacketAt.numbered (packet : PacketAt g offset) (indexed : IndexedGlobals f)
    (table : (receivedAs g).indexed = true) :
    ∃ i < numJoints, offset = g.size.toNat * i ∧ f.globals g (offset + 4) = UInt8.ofNat i := by
  cases packet with
  | joint inside => exact ⟨_, inside, rfl, indexed.params _ inside⟩
  | jointStatus inside => exact ⟨_, inside, rfl, indexed.statuses _ inside⟩
  | single sent => cases g <;> first | exact absurd table (by decide) | exact absurd sent (by decide)

theorem PacketAt.long (packet : PacketAt g offset) (table : (receivedAs g).indexed = true) : 0 < g.size.toNat - 4 := by
  cases packet with
  | joint | jointStatus => decide
  | single sent => cases g <;> first | exact absurd table (by decide) | exact absurd sent (by decide)

theorem PacketAt.start (packet : PacketAt g offset) (single : (receivedAs g).indexed = false) : offset = 0 := by
  cases packet with
  | joint | jointStatus => cases single
  | single => rfl

theorem entryByte {i : Nat} (inside : i < numJoints) : (UInt8.ofNat i).toNat = i := by
  rw [numJoints] at inside
  rw [UInt8.toNat_ofNat']
  omega

theorem payloadSize (g : Global) : g.size.toNat - 4 + 4 = g.size.toNat := by cases g <;> rfl

/- A packet of the firmware, behind its header. -/
def filed (f : State F) (packet : PacketAt g offset) (indexed : IndexedGlobals f) : EpochPacket where
  op := receivedAs g
  payload := load (f.globals g) (offset + 4) (g.size.toNat - 4)
  installed := receivedInstalled packet
  sized := by
    rw [loadLength]
    exact payloadSize g
  joint table := by
    obtain ⟨i, inside, -, number⟩ := packet.numbered indexed table
    rw [loadGetD _ _ (packet.long table), Nat.add_zero, number, entryByte inside]
    exact Nat.lt_trans inside (by decide)

theorem filedBody {sonar : Bool} {o : Outside F} (marked : ∀ k, k < 2 → Marked sonar k o.app) (packet : PacketAt g offset)
    (indexed : IndexedGlobals o.app) :
    (filed o.app packet indexed).body o.app.globalSeq = stamped g offset o.app :=
  (stampedBytes marked packet (payloadSize g).symm).symm

/- The client files it where the firmware keeps it. -/
theorem filedPlace (packet : PacketAt g offset) (indexed : IndexedGlobals f) :
    (filed f packet indexed).place = clientPlace g + offset := by
  have length := (filed f packet indexed).bodyLength 0
  unfold EpochPacket.place OrazioClient.destination
  rw [length]
  cases table : (receivedAs g).indexed with
  | false =>
    have single : ¬ (filed f packet indexed).op.indexed = true := by
      rw [show (filed f packet indexed).op = receivedAs g from rfl, table]
      exact Bool.false_ne_true
    rw [if_neg single]
    exact congrArg (clientPlace g + ·) (packet.start table).symm
  | true =>
    obtain ⟨i, inside, place, number⟩ := packet.numbered indexed table
    have byte : ((filed f packet indexed).body 0).getD 4 0 = UInt8.ofNat i := by
      change (load (f.globals g) (offset + 4) (g.size.toNat - 4)).getD 0 0 = _
      rw [loadGetD _ _ (packet.long table), Nat.add_zero, number]
    rw [byte, entryByte inside]
    exact (if_pos table).trans (congrArg (clientPlace g + ·) place.symm)

end Packets

/-! What is enqueued, as packets. -/

structure Emits (sonar : Bool) (names : List Global) (packets : List EpochPacket) (o later : Outside F) : Prop where
  enqueues : Enqueues sonar (packets.map fun p => p.body o.app.globalSeq) o later
  named : packets.map EpochPacket.op = names.map receivedAs
  indexed : Indexed later.app

section Emits
variable {sonar : Bool} {names others : List Global} {packets more : List EpochPacket} {b : Board F} {o mid later : Outside F}
  {g : Global} {offset : Nat}

theorem Emits.refl (intact : Intact sonar o) (indexed : Indexed o.app) : Emits sonar [] [] o o :=
  ⟨.refl intact, rfl, indexed⟩

theorem Emits.trans (first : Emits sonar names packets o mid) (second : Emits sonar others more mid later) :
    Emits sonar (names ++ others) (packets ++ more) o later := by
  have enqueued := second.enqueues
  rw [first.enqueues.epoch] at enqueued
  refine ⟨?_, ?_, second.indexed⟩
  · rw [List.map_append]
    exact first.enqueues.trans enqueued
  · rw [List.map_append, List.map_append, first.named, second.named]

/- Changes in front of what is sent. -/
theorem Emits.after {f : State F} (epoch : f.globalSeq = o.app.globalSeq) (emits : Emits sonar names packets (withApp o f) later) :
    Emits sonar names packets o later := by
  have enqueued := emits.enqueues
  rw [show (withApp o f).app.globalSeq = o.app.globalSeq from epoch] at enqueued
  exact ⟨⟨enqueued.intact, enqueued.waiting, enqueued.memory, enqueued.epoch.trans epoch⟩, emits.named, emits.indexed⟩

theorem framesLength (seq : PacketSeq) (named : packets.map EpochPacket.op = names.map receivedAs) :
    (((packets.map fun p => p.body seq).flatMap PacketHandler.frame).length : Int) = roomFor names := by
  induction packets generalizing names with
  | nil =>
    obtain rfl := List.map_eq_nil_iff.mp named.symm
    rfl
  | cons p rest ih =>
    cases names with
    | nil => cases named
    | cons g others =>
      obtain ⟨here, tail⟩ := List.cons.inj named
      have size : p.op.size.toNat = g.size.toNat := by
        rw [here]
        rfl
      rw [List.map_cons, List.flatMap_cons, List.length_append, PacketHandler.frameLength, p.bodyLength, size]
      have followed := ih tail
      simp only [roomFor, List.map_cons, List.sum_cons, frameSize] at followed ⊢
      omega

theorem Emits.size (emits : Emits sonar names packets o later) (ring : Valid packetSizeMax o.baseHandler.tx) :
    later.baseHandler.tx.size = o.baseHandler.tx.size + roomFor names := by
  rw [emits.enqueues.size ring, framesLength _ emits.named]

theorem sendPacketEmits (intact : Intact sonar o) (indexed : Indexed o.app) (packet : PacketAt g offset)
    (room : o.baseHandler.tx.size + frameSize g ≤ packetSizeMax) :
    Emits sonar [g] [filed o.app packet indexed.globals] o (sendPacket g offset o).2 := by
  have sent := sendPacketEnqueues intact packet room
  rw [← filedBody intact.marked packet indexed.globals] at sent
  exact ⟨sent, rfl, (sendPacketOnly o packet).steady.indexed indexed⟩

theorem sendResponseEmits (intact : Intact sonar o) (indexed : Indexed o.app) (p : Addr) (result : PacketStatus)
    (room : o.baseHandler.tx.size + frameSize .response ≤ packetSizeMax) :
    ∃ packet, Emits sonar [.response] [packet] o (sendResponse p result o) := by
  have keeps : Keeps sonar o.app _ := responseKeeps p result o.memory o.app
  have steady : Steady o.app (o.app.set .response (responseTo p result o.memory (o.app.globals .response))) :=
    setSteady _ _ (by decide)
  have filled : Intact sonar (withApp o (o.app.set .response (responseTo p result o.memory (o.app.globals .response)))) :=
    ⟨intact.ring, fun k low => keeps.marked k low (intact.marked k low)⟩
  exact ⟨_, Emits.after steady.epoch (sendPacketEmits filled (steady.indexed indexed) (.single (by decide)) room)⟩

/- What a handler sends. -/
theorem actEmits {action : DeferredAction} {p : Addr} (intact : Intact b.sonar o) (indexed : Indexed o.app)
    (found : actionOf b.sonar (o.memory p) = some action) (valid : ValidPacket o.memory p action)
    (room : o.baseHandler.tx.size + roomFor ((commandOf o.memory p action).replies b.sonar) ≤ packetSizeMax) :
    ∃ packets, Emits b.sonar ((commandOf o.memory p action).replies b.sonar) packets o (act b action p o) := by
  have keeps := preparedKeeps (b := b) found valid
  have steady : Steady o.app (prepared b action p o) := preparedSteady valid
  have ready : Intact b.sonar (withApp o (prepared b action p o)) :=
    ⟨intact.ring, fun k low => keeps.marked k low (intact.marked k low)⟩
  rw [repliesPlace] at room ⊢
  rw [actAnswers valid]
  cases place : echoPlace b action o.memory p with
  | none =>
    rw [place] at room
    obtain ⟨packet, sent⟩ := sendResponseEmits ready (steady.indexed indexed) p (outcome b action p o) room
    exact ⟨_, sent.after steady.epoch⟩
  | some told =>
    obtain ⟨g, offset⟩ := told
    obtain ⟨-, packet⟩ := echoPlaceAt valid place
    rw [place] at room
    have both : o.baseHandler.tx.size + (frameSize g + (frameSize .response + 0)) ≤ packetSizeMax := room
    have positive : (0 : Int) ≤ frameSize .response := by decide
    have echoed := sendPacketEmits ready (steady.indexed indexed) packet (by
      change o.baseHandler.tx.size + frameSize g ≤ packetSizeMax
      omega)
    have size : (sendPacket g offset (withApp o (prepared b action p o))).2.baseHandler.tx.size =
        o.baseHandler.tx.size + (frameSize g + 0) := echoed.size intact.ring
    obtain ⟨answer, answered⟩ := sendResponseEmits echoed.enqueues.intact echoed.indexed p (outcome b action p o) (by
      rw [size]
      omega)
    exact ⟨_, (echoed.trans answered).after steady.epoch⟩

theorem processLoopEmits {m : Machine F} (pending : List Addr) (answerable : Answerable b m) (indexed : Indexed m.outside.app)
    (valid : ∀ p ∈ pending, ValidPending b.sonar m.outside.memory p)
    (room : m.outside.baseHandler.tx.size +
      roomFor ((commandsOf b.sonar m.outside.memory pending).flatMap (Command.replies b.sonar)) ≤ packetSizeMax) :
    ∃ packets, Emits b.sonar ((commandsOf b.sonar m.outside.memory pending).flatMap (Command.replies b.sonar)) packets m.outside
      (processLoop (act b) m pending).1.outside := by
  induction pending generalizing m with
  | nil => exact ⟨[], .refl answerable.intact indexed⟩
  | cons p rest ih =>
    obtain ⟨action, found, validHere⟩ := valid p List.mem_cons_self
    have processed := processPacketProcessed answerable.tabled found validHere
    have outside := processPacketActs answerable.tabled found
    have command : commandAt b.sonar m.outside.memory p = some (commandOf m.outside.memory p action) := by
      rw [commandAt, found]
      rfl
    rw [commandsOf, List.filterMap_cons_some command, List.flatMap_cons] at room ⊢
    rw [roomForAppend] at room
    have later := roomForPositive ((commandsOf b.sonar m.outside.memory rest).flatMap (Command.replies b.sonar))
    rw [commandsOf] at later
    obtain ⟨packets, first⟩ := actEmits answerable.intact indexed found validHere (by omega)
    have size := first.size answerable.intact.ring
    rw [← outside] at first size
    obtain ⟨more, second⟩ := ih ⟨processed.tabled, first.enqueues.intact⟩ first.indexed
      (fun q member => by
        rw [processed.memory]
        exact valid q (List.mem_cons_of_mem p member))
      (by
        rw [processed.memory, size, commandsOf]
        omega)
    rw [processed.memory] at second
    exact ⟨packets ++ more, first.trans second⟩

end Emits

/-! The periodic packets tell what the globals hold when the cycle ends. -/

/- The counters of the packets sent, and the bytes left for the line, move while the cycle is closed. -/
def Moving (g : Global) (a : Nat) : Prop := g = .systemStatus ∧ 10 ≤ a ∧ a < 16

instance (g : Global) (a : Nat) : Decidable (Moving g a) := inferInstanceAs (Decidable (_ ∧ _))

structure Tells (f : State F) (entry : Global × Nat) (p : EpochPacket) : Prop where
  op : p.op = receivedAs entry.1
  place : p.place = clientPlace entry.1 + entry.2
  bytes : ∀ a, 4 ≤ a → a < entry.1.size.toNat → ¬ Moving entry.1 a → (p.body 0).getD a 0 = f.globals entry.1 (entry.2 + a)

section Periodic
variable {b : Board F} {o later : Outside F} {f : State F} {entry : Global × Nat} {p : EpochPacket}

theorem filedTells {g : Global} {offset : Nat} (packet : PacketAt g offset) (indexed : IndexedGlobals f) :
    Tells f (g, offset) (filed f packet indexed) := by
  refine ⟨rfl, filedPlace packet indexed, fun a low high _ => ?_⟩
  obtain ⟨i, rfl⟩ : ∃ i, a = 4 + i := ⟨a - 4, by omega⟩
  have behind : ((filed f packet indexed).body 0).getD (4 + i) 0 =
      (load (f.globals g) (offset + 4) (g.size.toNat - 4)).getD i 0 := by
    rw [Nat.add_comm]
    rfl
  have inside : 4 + i < g.size.toNat := high
  rw [behind, loadGetD _ _ (by omega), Nat.add_assoc]

theorem Tells.kept {next : State F} (tells : Tells f entry p)
    (same : ∀ a, 4 ≤ a → a < entry.1.size.toNat → ¬ Moving entry.1 a →
      next.globals entry.1 (entry.2 + a) = f.globals entry.1 (entry.2 + a)) : Tells next entry p :=
  ⟨tells.op, tells.place, fun a low high still => (tells.bytes a low high still).trans (same a low high still).symm⟩

/- Sending writes behind the header of no status packet, but for what moves. -/
theorem PacketAt.behind {g : Global} {offset a : Nat} (packet : PacketAt g offset) (status : g ≠ .response) (low : 4 ≤ a)
    (high : a < g.size.toNat) (still : ¬ Moving g a) : ¬ Stamped g (offset + a) := by
  cases packet with
  | joint =>
    have below : a < 25 := high
    simp only [Stamped, jointParamEntry]
    omega
  | jointStatus =>
    have below : a < 16 := high
    simp only [Stamped, jointStatusEntry]
    omega
  | single sent =>
    cases g with
    | systemStatus =>
      have outside : ¬ (10 ≤ a ∧ a < 16) := fun inside => still ⟨rfl, inside⟩
      simp only [Stamped]
      omega
    | response => exact absurd rfl status
    | jointParams | jointStatus | driveControl | jointControl => exact absurd sent (by decide)
    | _ =>
      simp only [Stamped]
      omega

/- Sending more does not touch what was told. -/
theorem Tells.sent (tells : Tells o.app entry p) (only : SendsOnly o later) (packet : PacketAt entry.1 entry.2)
    (status : entry.1 ≠ .response) : Tells later.app entry p :=
  tells.kept fun _ low high still => only.globals _ _ (packet.behind status low high still)

theorem sendAllEmits (packets : List (Global × Nat)) (intact : Intact b.sonar o) (indexed : Indexed o.app)
    (sent : ∀ entry ∈ packets, PacketAt entry.1 entry.2 ∧ entry.1 ≠ .response)
    (room : o.baseHandler.tx.size + roomFor (packets.map Prod.fst) ≤ packetSizeMax) :
    ∃ statuses, Emits b.sonar (packets.map Prod.fst) statuses o (sendAll packets o) ∧
      List.Forall₂ (Tells (sendAll packets o).app) packets statuses := by
  induction packets generalizing o with
  | nil => exact ⟨[], .refl intact indexed, .nil⟩
  | cons entry rest ih =>
    obtain ⟨packet, status⟩ := sent entry List.mem_cons_self
    have others : ∀ other ∈ rest, PacketAt other.1 other.2 ∧ other.1 ≠ .response := fun other member =>
      sent other (List.mem_cons_of_mem entry member)
    have both : o.baseHandler.tx.size + (frameSize entry.1 + roomFor (rest.map Prod.fst)) ≤ packetSizeMax := room
    have positive := roomForPositive (rest.map Prod.fst)
    have first := sendPacketEmits intact indexed packet (by omega)
    have size : (sendPacket entry.1 entry.2 o).2.baseHandler.tx.size = o.baseHandler.tx.size + (frameSize entry.1 + 0) :=
      first.size intact.ring
    obtain ⟨statuses, second, told⟩ := ih first.enqueues.intact first.indexed others (by omega)
    have told₀ := (filedTells packet indexed.globals).sent (sendPacketOnly o packet) packet status
    have only := sendAllOnly rest (sendPacket entry.1 entry.2 o).2 fun other member => (others other member).1
    exact ⟨_, first.trans second, .cons (told₀.sent only packet status) told⟩

theorem sendMessageEmits (intact : Intact b.sonar o) (indexed : Indexed o.app)
    (room : o.baseHandler.tx.size + roomFor (message o.app) ≤ packetSizeMax) :
    ∃ packets, Emits b.sonar (message o.app) packets o (sendMessage o) := by
  unfold message sendMessage at *
  split at room
  · rename_i pending
    have fits : o.baseHandler.tx.size + (frameSize .stringMessage + 0) ≤ packetSizeMax := room
    rw [if_pos pending, if_pos pending]
    have sent := sendPacketEmits (g := .stringMessage) intact indexed (.single (by decide)) (by omega)
    have kept : ∀ k, k < 2 → Marked b.sonar k (setWord (sendPacket .stringMessage 0 o).2.app .stringMessage 2 0) :=
      fun k low => (sent.enqueues.intact.marked k low).behind low
        ((SameOutside.refl _).setWord 0 ⟨rfl, by decide⟩ ⟨rfl, by decide⟩) (by decide) rfl
    have steady : Steady (sendPacket .stringMessage 0 o).2.app
        (setWord (sendPacket .stringMessage 0 o).2.app .stringMessage 2 0) := setSteady _ _ (by decide)
    exact ⟨_, ⟨⟨sent.enqueues.intact.ring, kept⟩, sent.enqueues.waiting, sent.enqueues.memory,
      steady.epoch.trans sent.enqueues.epoch⟩, sent.named, steady.indexed sent.indexed⟩
  · rename_i quiet
    rw [if_neg quiet, if_neg quiet]
    exact ⟨[], .refl intact indexed⟩

theorem tellsKept {next : State F} {entries : List (Global × Nat)} {statuses : List EpochPacket}
    (told : List.Forall₂ (Tells f) entries statuses)
    (kept : ∀ entry ∈ entries, ∀ p, Tells f entry p → Tells next entry p) : List.Forall₂ (Tells next) entries statuses := by
  induction told with
  | nil => exact .nil
  | @cons entry p _ _ here _ ih =>
    exact .cons (kept entry List.mem_cons_self p here) (ih fun other member => kept other (List.mem_cons_of_mem entry member))

/- The packets of the mask are no answers. -/
theorem periodicStatus (b : Board F) (f : State F) {entry : Global × Nat} (member : entry ∈ periodicPackets b f) :
    entry.1 ∈ [Global.systemStatus, .jointStatus, .driveStatus, .sonarStatus] := by
  unfold periodicPackets at member
  simp only [List.mem_append] at member
  rcases member with ((system | joints) | drive) | sonar
  · split at system
    · rw [List.mem_singleton.mp system]
      decide
    · cases system
  · split at joints
    · obtain ⟨i, -, rfl⟩ := List.mem_map.mp joints
      change Global.jointStatus ∈ _
      decide
    · cases joints
  · split at drive
    · rw [List.mem_singleton.mp drive]
      decide
    · cases drive
  · split at sonar
    · rw [List.mem_singleton.mp sonar]
      decide
    · cases sonar

theorem periodicSame {next : State F} (same : control next = control f) : periodicPackets b next = periodicPackets b f := by
  have mask : periodicPacketMask next = periodicPacketMask f := congrArg (fun c => c.settings.periodicPacketMask) same
  have ready : next.sonarReady = f.sonarReady := congrArg Control.sonarReady same
  unfold periodicPackets
  rw [mask, ready]

end Periodic

/-! The cycle. -/

/- An epoch that ends in this state: first the answers, then what the mask asks for, then the message if there is one. -/
structure TellsEpoch (b : Board F) (f : State F) (e : Epoch) : Prop where
  told : ∃ answers statuses last, e.packets = answers ++ (statuses ++ last) ∧
    List.Forall₂ (Tells f) (periodicPackets b f) statuses ∧ ∀ p ∈ last, p.op = receivedAs .stringMessage

section Cycle
variable {b : Board F} {line : Line} {m : Machine F}

theorem repliesOrdinary (sonar : Bool) (command : Command) : .endEpoch ∉ command.replies sonar := by
  have targets : ∀ paramType, .endEpoch ∉ (targetGlobal sonar paramType).toList ++ [.response] := by
    intro paramType
    unfold targetGlobal
    split_ifs <;> decide
  have answer : ∀ g : Global, g ≠ .endEpoch → .endEpoch ∉ [g, .response] := by
    intro g other
    cases g <;> first | exact absurd rfl other | decide
  have alone : .endEpoch ∉ [Global.response] := by decide
  cases command with
  | paramControl => exact targets _
  | driveControl | jointControl | refused => exact alone
  | systemParam | driveParam | sonarParam | jointParam => exact answer _ (by decide)

/- Nothing in front of END_EPOCH is of its kind. -/
theorem emitsOrdinary {names : List Global} {packets : List EpochPacket} {sonar : Bool} {o later : Outside F}
    (emits : Emits sonar names packets o later) (ordinary : .endEpoch ∉ names) : ∀ p ∈ packets, p.op ≠ endEpochOp := by
  intro p member same
  have named : p.op ∈ names.map receivedAs := by
    rw [← emits.named]
    exact List.mem_map_of_mem member
  obtain ⟨g, inside, op⟩ := List.mem_map.mp named
  have last := receivedEnd (op.trans same)
  rw [last] at inside
  exact ordinary inside

theorem completeEmits {o : Outside F} (intact : Intact b.sonar o) (indexed : Indexed o.app)
    (room : o.baseHandler.tx.size + roomFor (periodic b.sonar (control o.app) ++ (message o.app ++ [.endEpoch])) ≤ packetSizeMax) :
    ∃ statuses last, Emits b.sonar (periodic b.sonar (control o.app) ++ (message o.app ++ [.endEpoch]))
        (statuses ++ (last ++ [endOfEpoch])) o (sendPeriodic b o) ∧
      List.Forall₂ (Tells (sendPeriodic b o).app) (periodicPackets b (sendPeriodic b o).app) statuses ∧
      (∀ p ∈ last, p.op = receivedAs .stringMessage) ∧ ∀ p ∈ statuses ++ last, p.op ≠ endEpochOp := by
  have sent : ∀ entry ∈ periodicPackets b o.app, PacketAt entry.1 entry.2 ∧ entry.1 ≠ .response := fun entry member =>
    ⟨periodicPacketAt b o.app member, fun same => absurd (same ▸ periodicStatus b o.app member) (by decide)⟩
  rw [← periodicNamed, roomForAppend, roomForAppend] at room
  have message₀ := roomForPositive (message o.app)
  have end₀ : roomFor [.endEpoch] = frameSize .endEpoch := Int.add_zero _
  have positive : (0 : Int) ≤ frameSize .endEpoch := by decide
  obtain ⟨statuses, first, told⟩ := sendAllEmits (periodicPackets b o.app) intact indexed sent (by omega)
  have size := first.size intact.ring
  have said : message (sendAll (periodicPackets b o.app) o).app = message o.app :=
    messageOf (sendAllReplies _ intact.ring (markedHeaded.mp (intact.marked 1 (by decide)))
      fun entry member => ⟨periodicPacketAt b o.app member, periodicNoMessage b o.app member⟩).message
  obtain ⟨last, second⟩ := sendMessageEmits first.enqueues.intact first.indexed (by
    rw [said, size]
    omega)
  rw [said] at second
  have longer := second.size first.enqueues.intact.ring
  have closed := sendPacketEmits (g := .endEpoch) second.enqueues.intact second.indexed (.single (by decide)) (by
    rw [longer, size]
    omega)
  rw [← periodicNamed]
  have only := (sendMessageOnly (sendAll (periodicPackets b o.app) o)).trans
    (sendPacketOnly (g := .endEpoch) _ (.single (by decide)))
  have messages : ∀ g ∈ message o.app, g = .stringMessage := by
    intro g member
    unfold message at member
    split at member
    · exact List.mem_singleton.mp member
    · cases member
  refine ⟨statuses, last, first.trans (second.trans closed), ?_, fun p member => ?_, emitsOrdinary (first.trans second) ?_⟩
  · rw [periodicSame (sendPeriodicOnly b o).control]
    exact tellsKept told fun entry member p tells => tells.sent only (sent entry member).1 (sent entry member).2
  · have named : p.op ∈ (message o.app).map receivedAs := by
      rw [← second.named]
      exact List.mem_map_of_mem member
    obtain ⟨g, inside, op⟩ := List.mem_map.mp named
    rw [← op, messages g inside]
  · intro member
    rcases List.mem_append.mp member with status | message
    · obtain ⟨entry, inside, same⟩ := List.mem_map.mp status
      exact absurd (same ▸ periodicStatus b o.app inside) (by decide)
    · exact absurd (messages _ message) (by decide)

theorem receivedEpoch (bytes : List UInt8) (m : Machine F) :
    (bytes.foldl receiveByte m).outside.app.globalSeq = m.outside.app.globalSeq := by
  induction bytes generalizing m with
  | nil => rfl
  | cons c rest ih =>
    rw [List.foldl_cons, ih]
    unfold receiveByte
    dsimp only
    split <;> split <;> rfl

/- The cycle up to the flush of the output. -/
theorem cycleEmits (answerable : Answerable b (beginEpoch line m)) (tabled : Tabled b.sonar m) (indexed : Indexed m.outside.app)
    (valid : ValidBatch b line m) (empty : m.outside.baseHandler.tx.size = 0)
    (room : roomFor (cyclePackets b line m) ≤ packetSizeMax) :
    ∃ e : Epoch, Enqueues b.sonar (e.all.map fun p => p.body (m.outside.app.globalSeq + 1)) (beginEpoch line m).outside
        (completeEpoch b (processPending b (beginEpoch line m))).outside ∧
      TellsEpoch b (completeEpoch b (processPending b (beginEpoch line m))).outside.app e ∧
      Indexed (completeEpoch b (processPending b (beginEpoch line m))).outside.app := by
  have only := beginEpochOnly line m
  have begun : Indexed (beginEpoch line m).outside.app := only.indexed indexed
  have ring : (beginEpoch line m).outside.baseHandler.tx = m.outside.baseHandler.tx := receivedRing line.received _
  have epoch : (beginEpoch line m).outside.app.globalSeq = m.outside.app.globalSeq + 1 :=
    congrArg (· + 1) (receivedEpoch line.received _)
  have began : (beginEpoch line m).outside.baseHandler.tx.size = 0 := by rw [ring, empty]
  have processed := processPendingProcessed (beginEpochTabled line tabled) valid
  have effect : control (processPending b (beginEpoch line m)).outside.app =
      effects b.sonar (control m.outside.app) (batch b line m) := by
    rw [processed.control, only.control]
    rfl
  unfold cyclePackets at room
  rw [roomForAppend] at room
  have later := roomForPositive (periodic b.sonar (effects b.sonar (control m.outside.app) (batch b line m)) ++
    (message m.outside.app ++ [.endEpoch]))
  obtain ⟨answers, first⟩ : ∃ packets, Emits b.sonar ((batch b line m).flatMap (Command.replies b.sonar)) packets
      (beginEpoch line m).outside (processPending b (beginEpoch line m)).outside :=
    processLoopEmits _ answerable begun valid (by
      rw [began]
      change _ + roomFor ((batch b line m).flatMap (Command.replies b.sonar)) ≤ _
      omega)
  have size := first.size answerable.intact.ring
  have keeps : Keeps b.sonar m.outside.app (beginEpoch line m).outside.app := only.keeps
  have begunMessage : message (beginEpoch line m).outside.app = message m.outside.app := messageOf keeps.message
  have said : message (processPending b (beginEpoch line m)).outside.app = message m.outside.app := by
    have replies := processLoopReplies (m := beginEpoch line m) (b := b) _ answerable.tabled answerable.intact.ring
      (markedHeaded.mp (answerable.intact.marked 1 (by decide))) valid
    exact (messageOf replies.message).trans begunMessage
  obtain ⟨statuses, last, second, told, named, ordinary⟩ := completeEmits first.enqueues.intact first.indexed (by
    rw [size, began, effect, said]
    omega)
  have answersOrdinary := emitsOrdinary first fun member => by
    obtain ⟨command, -, reply⟩ := List.mem_flatMap.mp member
    exact repliesOrdinary b.sonar command reply
  let e : Epoch := ⟨answers ++ (statuses ++ last), fun p member =>
    (List.mem_append.mp member).elim (answersOrdinary p) (ordinary p)⟩
  have enqueues := (first.trans second).enqueues
  rw [epoch] at enqueues
  refine ⟨e, ?_, ⟨answers, statuses, last, rfl, told, named⟩, second.indexed⟩
  have all : e.all = answers ++ (statuses ++ (last ++ [endOfEpoch])) := by
    rw [Epoch.all, List.append_assoc, List.append_assoc]
  rw [all]
  exact enqueues

theorem drainBytes (turns : Nat) (h : PacketHandler PacketType) (valid : Valid packetSizeMax h.tx) (enough : h.tx.size ≤ turns) :
    (drain turns h).1 = PacketHandler.waiting h := by
  have length (h : PacketHandler PacketType) (valid : Valid packetSizeMax h.tx) :
      ((PacketHandler.waiting h).length : Int) = h.tx.size := contentsLength valid
  have empty (h : PacketHandler PacketType) (valid : Valid packetSizeMax h.tx) (none : h.tx.size = 0) :
      PacketHandler.waiting h = [] := List.eq_nil_of_length_eq_zero (by have := length h valid; omega)
  induction turns generalizing h with
  | zero =>
    have low := valid.sizeLow
    exact (empty h valid (by omega)).symm
  | succ turns ih =>
    unfold drain
    split
    · rename_i none
      exact (empty h valid none).symm
    · rename_i some
      obtain ⟨waits, validAfter, -⟩ := PacketHandler.txByteTakes valid some
      have before := length h valid
      have after := length _ validAfter
      rw [waits, List.length_cons] at before
      rw [waits]
      exact congrArg (_ :: ·) (ih _ validAfter (by push_cast at before enough; omega))

/- The epoch that `Orazio_commHandle` hands to the line. -/
theorem commHandleTells (answerable : Answerable b (beginEpoch line m)) (ready : Ready b m) (indexed : Indexed m.outside.app)
    (valid : ValidBatch b line m) (room : roomFor (cyclePackets b line m) ≤ packetSizeMax) :
    ∃ e : Epoch, (commHandle b line m).1 = OrazioClient.framed (m.outside.app.globalSeq + 1) e.all ∧
      TellsEpoch b (commHandle b line m).2.outside.app e ∧ Indexed (commHandle b line m).2.outside.app ∧
      (commHandle b line m).2.outside.app.globalSeq = m.outside.app.globalSeq + 1 := by
  obtain ⟨e, enqueues, told, kept⟩ := cycleEmits answerable ready.tabled indexed valid ready.drained room
  have ring := enqueues.intact.ring
  have bytes := drainBytes _ _ ring (Int.self_le_toNat _)
  have before : PacketHandler.waiting (beginEpoch line m).outside.baseHandler = [] := by
    have size : (beginEpoch line m).outside.baseHandler.tx.size = 0 := by
      rw [show (beginEpoch line m).outside.baseHandler.tx = m.outside.baseHandler.tx from receivedRing line.received _, ready.drained]
    have length : ((PacketHandler.waiting (beginEpoch line m).outside.baseHandler).length : Int) = _ :=
      contentsLength answerable.intact.ring
    exact List.eq_nil_of_length_eq_zero (by omega)
  have counted : Steady (completeEpoch b (processPending b (beginEpoch line m))).outside.app
      (commHandle b line m).2.outside.app := setSteady _ _ (by decide)
  have epoch : (beginEpoch line m).outside.app.globalSeq = m.outside.app.globalSeq + 1 :=
    congrArg (· + 1) (receivedEpoch line.received _)
  refine ⟨e, ?_, ?_, counted.indexed kept, counted.epoch.trans (enqueues.epoch.trans epoch)⟩
  · have flushed : (commHandle b line m).1 =
        PacketHandler.waiting (completeEpoch b (processPending b (beginEpoch line m))).outside.baseHandler := bytes
    rw [flushed, enqueues.waiting, before, List.nil_append, OrazioClient.framed, List.flatMap_map]
  · obtain ⟨answers, statuses, last, packets, tells, named⟩ := told.told
    refine ⟨answers, statuses, last, packets, ?_, named⟩
    have same : periodicPackets b (commHandle b line m).2.outside.app = _ :=
      periodicSame (flushOutputControl line (completeEpoch b (processPending b (beginEpoch line m))))
    rw [same]
    refine tellsKept tells fun entry member p tell => tell.kept fun a low high still => ?_
    refine setWordOutside _ _ _ _ fun touched => still ⟨touched.1, ?_⟩
    have packet := periodicPacketAt b _ member
    rw [touched.1] at packet
    have start := startAlone (by decide) packet
    omega

end Cycle

end OrazioLogger.Firmware
