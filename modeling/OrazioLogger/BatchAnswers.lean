import OrazioLogger.EpochCapacity

/-! What processing a batch puts in the transmit ring: for every packet the parameters it echoes, if any, and the response to it. -/
namespace OrazioLogger.Firmware
open ByteMemory RingBuffer Countdown OrazioPackets OrazioComm DeferredPacketHandler
open OrazioClient (load16 store16)

variable {F : Type}

/-! No handler sends by itself, or touches the sequence number of the epoch. -/

structure Untold (f later : State F) : Prop where
  epoch : later.globalSeq = f.globalSeq
  results : later.sendResults = f.sendResults

theorem Untold.refl (f : State F) : Untold f f := ⟨rfl, rfl⟩

theorem Untold.trans {f mid later : State F} (first : Untold f mid) (second : Untold mid later) : Untold f later :=
  ⟨second.epoch.trans first.epoch, second.results.trans first.results⟩

section Handler
variable {b : Board F} {o : Outside F} {p : Addr} {action : DeferredAction} {args : PacketHandlerArgs}

theorem driveInitUntold (b : Board F) (f : State F) : Untold f (driveInit b f).2 :=
  ⟨by rw [(driveInitOnly b f).same], by rw [(driveInitOnly b f).same]⟩

theorem jointsInitUntold (b : Board F) (f : State F) : Untold f (jointsInit b f).2 :=
  ⟨by rw [(jointsInitEnds b f).only.same], by rw [(jointsInitEnds b f).only.same]⟩

theorem postCopyUntold (b : Board F) (args : PacketHandlerArgs) (f : State F) : Untold f (postCopy b args f).2 := by
  cases args with
  | driveControl | jointControl => exact .refl f
  | systemParam | driveParam => exact driveInitUntold b f
  | sonarParam => exact ⟨rfl, rfl⟩
  | jointParam => exact jointsInitUntold b f

theorem copyPacketUntold (args : PacketHandlerArgs) (offset : Int) (memory : Memory) (p : Addr) (f : State F) :
    Untold f (copyPacket args offset memory p f) := by
  unfold copyPacket
  dsimp only
  split <;> split <;> exact ⟨rfl, rfl⟩

theorem handledUntold : Untold o.app (handled b args p o).2 := by
  unfold handled
  refine .trans ?_ (postCopyUntold b args _)
  refine .trans ?_ (copyPacketUntold args _ _ p _)
  split <;> exact ⟨rfl, rfl⟩

theorem paramSetUntold (paramType : UInt8) (f : State F) : Untold f (paramSet b paramType f).2 := by
  unfold paramSet
  split
  · exact driveInitUntold b f
  split
  · exact jointsInitUntold b f
  split
  · exact driveInitUntold b f
  split <;> exact ⟨rfl, rfl⟩

theorem checkIndexUntold (index : Int) (f : State F) : Untold f (checkIndex f index) := by
  unfold checkIndex
  split <;> exact ⟨rfl, rfl⟩

theorem eepromReadUntold (g : Global) (offset src size : Nat) (f : State F) : Untold f (eepromRead f g offset src size) :=
  ⟨rfl, rfl⟩

theorem paramLoadUntold (paramType : UInt8) (index : Int) (f : State F) : Untold f (paramLoad b paramType index f).2 := by
  unfold paramLoad
  split
  · exact (eepromReadUntold _ _ _ _ f).trans (paramSetUntold _ _)
  split
  · refine .trans ?_ (paramSetUntold _ _)
    split
    · exact (checkIndexUntold index f).trans (eepromReadUntold _ _ _ _ _)
    · exact checkIndexUntold index f
  split
  · exact (eepromReadUntold _ _ _ _ f).trans (paramSetUntold _ _)
  split
  · exact (eepromReadUntold _ _ _ _ f).trans (paramSetUntold _ _)
  · exact .refl f

theorem paramSaveUntold (paramType : UInt8) (index : Int) (f : State F) : Untold f (paramSave b paramType index f).2 := by
  unfold paramSave
  split
  · exact ⟨rfl, rfl⟩
  split
  · exact (checkIndexUntold index f).trans ⟨rfl, rfl⟩
  split
  · exact ⟨rfl, rfl⟩
  split <;> exact ⟨rfl, rfl⟩

theorem requestedUntold : Untold o.app (requested b p o).2 := by
  have numbered : Untold o.app (setRxSeq o.memory p o.app) := ⟨rfl, rfl⟩
  unfold requested
  dsimp only
  split
  · exact numbered
  split
  · exact numbered.trans (paramLoadUntold _ _ _)
  split
  · exact numbered.trans (paramSaveUntold _ _ _)
  · exact numbered

theorem preparedUntold : Untold o.app (prepared b action p o) := by
  cases action with
  | handleParamCtl => exact requestedUntold
  | handlePacket args =>
    unfold prepared
    dsimp only
    split
    · exact ⟨rfl, rfl⟩
    · exact handledUntold

end Handler

/-! What is enqueued. -/

/- A packet of the epoch `seq` as it is on the line. -/
structure Numbered (g : Global) (seq : PacketSeq) (body : List UInt8) : Prop where
  header : body.take 4 = g.type :: g.size :: littleEndian16 seq
  length : body.length = g.size.toNat

/- p_result. -/
def resultByte (result : PacketStatus) : UInt8 := UInt8.ofNat (result.code % 256).toNat

/- The response to the packet of a type with a number. -/
def responseBody (seq : PacketSeq) (type : PacketType) (number : PacketSeq) (result : PacketStatus) : List UInt8 :=
  responsePacketId :: sizeofResponsePacket :: littleEndian16 seq ++ type :: littleEndian16 number ++ [resultByte result]

/- A ring and headers as every cycle finds them. -/
structure Intact (sonar : Bool) (o : Outside F) : Prop where
  ring : Valid packetSizeMax o.baseHandler.tx
  marked : ∀ k, k < 2 → Marked sonar k o.app

structure Enqueues (sonar : Bool) (bodies : List (List UInt8)) (o later : Outside F) : Prop where
  intact : Intact sonar later
  waiting : PacketHandler.waiting later.baseHandler =
    PacketHandler.waiting o.baseHandler ++ bodies.flatMap PacketHandler.frame
  memory : later.memory = o.memory
  epoch : later.app.globalSeq = o.app.globalSeq

section Enqueues
variable {sonar : Bool} {bodies more : List (List UInt8)} {o mid later : Outside F} {g : Global} {offset : Nat}

theorem Enqueues.refl (intact : Intact sonar o) : Enqueues sonar [] o o := ⟨intact, by simp, rfl, rfl⟩

theorem Enqueues.trans (first : Enqueues sonar bodies o mid) (second : Enqueues sonar more mid later) :
    Enqueues sonar (bodies ++ more) o later := by
  refine ⟨second.intact, ?_, second.memory.trans first.memory, second.epoch.trans first.epoch⟩
  rw [second.waiting, first.waiting, List.flatMap_append, List.append_assoc]

theorem Enqueues.size (enqueues : Enqueues sonar bodies o later) (ring : Valid packetSizeMax o.baseHandler.tx) :
    later.baseHandler.tx.size = o.baseHandler.tx.size + ((bodies.flatMap PacketHandler.frame).length : Int) := by
  have before : ((PacketHandler.waiting o.baseHandler).length : Int) = o.baseHandler.tx.size := contentsLength ring
  have after : ((PacketHandler.waiting later.baseHandler).length : Int) = later.baseHandler.tx.size :=
    contentsLength enqueues.intact.ring
  rw [← after, ← before, enqueues.waiting, List.length_append, Nat.cast_add]

/- The packet that `Orazio_sendPacket` hands on. -/
def stamped (g : Global) (offset : Nat) (f : State F) : List UInt8 :=
  load (store16 (f.globals g) (offset + 2) f.globalSeq) offset g.size.toNat

theorem stampedHeader {k : Nat} (low : k < 2) (marked : Marked sonar k o.app) (packet : PacketAt g offset) :
    store16 (o.app.globals g) (offset + 2) o.app.globalSeq (offset + k) = g.header k := by
  have start : offset + k ≠ offset + 2 := by omega
  have second : offset + k ≠ offset + 2 + 1 := by omega
  exact (storeOther _ second).trans ((storeOther _ start).trans (marked.globals g offset packet))

/- Behind the header there is what the global holds. -/
theorem stampedBytes {n : Nat} (marked : ∀ k, k < 2 → Marked sonar k o.app) (packet : PacketAt g offset)
    (size : g.size.toNat = n + 4) : stamped g offset o.app =
      (g.type :: g.size :: littleEndian16 o.app.globalSeq) ++ load (o.app.globals g) (offset + 4) n := by
  have behind : ∀ k : Nat, k < 2 → store16 (o.app.globals g) (offset + 2) o.app.globalSeq (offset + k) = g.header k :=
    fun k low => stampedHeader low (marked k low) packet
  have low : store16 (o.app.globals g) (offset + 2) o.app.globalSeq (offset + 2) = o.app.globalSeq.toUInt8 :=
    (storeOther _ (Nat.ne_of_lt (Nat.lt_succ_self _))).trans (storeSame _ _ _)
  have high : store16 (o.app.globals g) (offset + 2) o.app.globalSeq (offset + 3) = (o.app.globalSeq >>> 8).toUInt8 :=
    storeSame _ _ _
  have rest : load (store16 (o.app.globals g) (offset + 2) o.app.globalSeq) (offset + 4) n =
      load (o.app.globals g) (offset + 4) n := by
    refine (loadStoreOutside _ ?_).trans (loadStoreOutside _ ?_)
    · rintro ⟨above, -⟩
      omega
    · rintro ⟨above, -⟩
      omega
  unfold stamped
  rw [size, loadCons, loadCons, loadCons, loadCons]
  rw [show load _ (offset + 1 + 1 + 1 + 1) n = _ from rest]
  simp only [Nat.add_assoc] at *
  rw [behind 1 (by decide), low, high]
  exact congrArg (· :: _) (behind 0 (by decide))

theorem Global.sizeHeader (g : Global) : ∃ n, g.size.toNat = n + 4 := by cases g <;> exact ⟨_, rfl⟩

theorem stampedNumbered (marked : ∀ k, k < 2 → Marked sonar k o.app) (packet : PacketAt g offset) :
    Numbered g o.app.globalSeq (stamped g offset o.app) := by
  obtain ⟨n, size⟩ := g.sizeHeader
  refine ⟨?_, loadLength _ _ _⟩
  rw [stampedBytes marked packet size]
  rfl

theorem responseStamped (marked : ∀ k, k < 2 → Marked sonar k o.app) (p : Addr) (result : PacketStatus) :
    stamped .response 0 (o.app.set .response (responseTo p result o.memory (o.app.globals .response))) =
      responseBody o.app.globalSeq (o.memory p) (load16 o.memory (p + 2)) result := by
  have keeps : Keeps sonar o.app (o.app.set .response (responseTo p result o.memory (o.app.globals .response))) :=
    responseKeeps p result o.memory o.app
  have four : responseTo p result o.memory (o.app.globals .response) 4 = o.memory p :=
    (storeOther _ (by decide)).trans (storeSame _ _ _)
  have five : responseTo p result o.memory (o.app.globals .response) 5 = (load16 o.memory (p + 2)).toUInt8 :=
    (storeOther _ (by decide)).trans ((storeOther _ (by decide)).trans ((storeOther _ (by decide)).trans (storeSame _ _ _)))
  have six : responseTo p result o.memory (o.app.globals .response) 6 = (load16 o.memory (p + 2) >>> 8).toUInt8 :=
    (storeOther _ (by decide)).trans ((storeOther _ (by decide)).trans (storeSame _ _ _))
  have seven : responseTo p result o.memory (o.app.globals .response) 7 = resultByte result :=
    storeSame _ _ _
  refine (stampedBytes (g := .response) (n := 4)
    (o := withApp o (o.app.set .response (responseTo p result o.memory (o.app.globals .response))))
    (fun k low => keeps.marked k low (marked k low)) (.single (by decide)) rfl).trans ?_
  have answer : load (responseTo p result o.memory (o.app.globals .response)) 4 4 =
      o.memory p :: littleEndian16 (load16 o.memory (p + 2)) ++ [resultByte result] := by
    calc load (responseTo p result o.memory (o.app.globals .response)) 4 4
        = (let m := responseTo p result o.memory (o.app.globals .response)
          [m 4, m 5, m 6, m 7]) := rfl
      _ = _ := by
        dsimp only
        rw [four, five, six, seven]
        rfl
  change _ ++ load ((o.app.set .response _).globals .response) 4 4 = _
  rw [setSame, answer]
  rfl

theorem sendPacketEnqueues (intact : Intact sonar o) (packet : PacketAt g offset)
    (room : o.baseHandler.tx.size + frameSize g ≤ packetSizeMax) :
    Enqueues sonar [stamped g offset o.app] o (sendPacket g offset o).2 := by
  have handed := sendPacketHanded intact.ring g offset
  have only := sendPacketOnly o packet
  have length : o.app.globals g (offset + 1) = g.size := (intact.marked 1 (by decide)).globals g offset packet
  have bytes : bodyAt o.app g offset = stamped g offset o.app := by
    rw [bodyAt, PacketHandler.packetBytes, stampedHeader (by decide) (intact.marked 1 (by decide)) packet, stamped]
    rfl
  have taken : Room o (frameAt o.app g offset) := by
    rw [frameAt, length]
    exact room
  refine ⟨⟨handed.ring, fun k low => only.marked low (intact.marked k low)⟩, ?_, only.memory, ?_⟩
  · rw [handed.waiting, if_pos taken, bytes]
    simp
  · rw [only.same]

theorem sendResponseEnqueues (intact : Intact sonar o) (p : Addr) (result : PacketStatus)
    (room : o.baseHandler.tx.size + frameSize .response ≤ packetSizeMax) :
    Enqueues sonar [responseBody o.app.globalSeq (o.memory p) (load16 o.memory (p + 2)) result] o (sendResponse p result o) := by
  have keeps : Keeps sonar o.app (o.app.set .response (responseTo p result o.memory (o.app.globals .response))) :=
    responseKeeps p result o.memory o.app
  have filled : Intact sonar (withApp o (o.app.set .response (responseTo p result o.memory (o.app.globals .response)))) :=
    ⟨intact.ring, fun k low => keeps.marked k low (intact.marked k low)⟩
  have sent := sendPacketEnqueues filled (.single (by decide)) room
  rw [← responseStamped intact.marked p result]
  exact ⟨sent.intact, sent.waiting, sent.memory, sent.epoch⟩

end Enqueues

/-! The answers to a packet: what it echoes, then its response. -/

def repliesTo (sonar : Bool) (memory : Memory) (p : Addr) : List Global :=
  (commandAt sonar memory p).elim [] (Command.replies sonar)

inductive AnswersTo (sonar : Bool) (memory : Memory) (seq : PacketSeq) (result : PacketStatus) (p : Addr) :
    List (List UInt8) → Prop where
  | alone (silent : repliesTo sonar memory p = [.response]) :
      AnswersTo sonar memory seq result p [responseBody seq (memory p) (load16 memory (p + 2)) result]
  | echoed {g : Global} {body : List UInt8} (told : repliesTo sonar memory p = [g, .response])
      (parameter : g ∈ parameters) (numbered : Numbered g seq body) :
      AnswersTo sonar memory seq result p [body, responseBody seq (memory p) (load16 memory (p + 2)) result]

/- Answered with some result. -/
def Answered (sonar : Bool) (memory : Memory) (seq : PacketSeq) (p : Addr) (group : List (List UInt8)) : Prop :=
  ∃ result, AnswersTo sonar memory seq result p group

/- The bytes of frames. -/
def roomFor (packets : List Global) : Int := (packets.map frameSize).sum

section Answers
variable {b : Board F} {o : Outside F} {p : Addr} {action : DeferredAction} {memory : Memory} {seq : PacketSeq}
  {result : PacketStatus} {group : List (List UInt8)}

theorem AnswersTo.length {sonar : Bool} (answers : AnswersTo sonar memory seq result p group) :
    ((group.flatMap PacketHandler.frame).length : Int) = roomFor (repliesTo sonar memory p) := by
  cases answers with
  | alone silent =>
    rw [silent]
    rfl
  | @echoed g body told parameter numbered =>
    rw [told, List.flatMap_cons, List.length_append, PacketHandler.frameLength, numbered.length]
    change ((g.size.toNat + 3 + (8 + 3) : Nat) : Int) = (g.size.toNat : Int) + 3 + ((8 : Int) + 3 + 0)
    push_cast
    rfl

theorem repliesFound (b : Board F) (found : actionOf b.sonar (memory p) = some action) : repliesTo b.sonar memory p =
    ((echoPlace b action memory p).map Prod.fst).toList ++ [.response] := by
  rw [← repliesPlace]
  unfold repliesTo commandAt
  rw [found]
  rfl

theorem actEnqueues (intact : Intact b.sonar o) (found : actionOf b.sonar (o.memory p) = some action)
    (valid : ValidPacket o.memory p action)
    (room : o.baseHandler.tx.size + roomFor (repliesTo b.sonar o.memory p) ≤ packetSizeMax) :
    ∃ group, AnswersTo b.sonar o.memory o.app.globalSeq (outcome b action p o) p group ∧
      Enqueues b.sonar group o (act b action p o) := by
  have keeps := preparedKeeps (b := b) found valid
  have epoch : (prepared b action p o).globalSeq = o.app.globalSeq := preparedUntold.epoch
  have ready : Intact b.sonar (withApp o (prepared b action p o)) :=
    ⟨intact.ring, fun k low => keeps.marked k low (intact.marked k low)⟩
  have replies : repliesTo b.sonar o.memory p = _ := repliesFound b found
  rw [actAnswers valid]
  cases place : echoPlace b action o.memory p with
  | none =>
    rw [place] at replies
    have room : o.baseHandler.tx.size + frameSize .response ≤ packetSizeMax := by
      rw [replies] at room
      exact room
    have answered := sendResponseEnqueues ready p (outcome b action p o) room
    refine ⟨_, .alone replies, answered.intact, ?_, answered.memory, answered.epoch.trans epoch⟩
    rw [← epoch]
    exact answered.waiting
  | some told =>
    obtain ⟨g, offset⟩ := told
    obtain ⟨parameter, packet⟩ := echoPlaceAt valid place
    rw [place] at replies
    have both : o.baseHandler.tx.size + (frameSize g + (frameSize .response + 0)) ≤ packetSizeMax := by
      rw [replies] at room
      exact room
    have echoRoom : o.baseHandler.tx.size + frameSize g ≤ packetSizeMax := by
      have positive : (0 : Int) ≤ frameSize .response := by decide
      omega
    have echoed := sendPacketEnqueues ready packet echoRoom
    have numbered := stampedNumbered ready.marked packet
    have size := echoed.size intact.ring
    have answered := sendResponseEnqueues echoed.intact p (outcome b action p o) (by
      rw [size, List.flatMap_singleton, PacketHandler.frameLength, numbered.length]
      unfold frameSize at both ⊢
      dsimp only [withApp]
      push_cast
      omega)
    have sent := echoed.trans answered
    have same : (sendPacket g offset (withApp o (prepared b action p o))).2.app.globalSeq = o.app.globalSeq :=
      echoed.epoch.trans epoch
    have memory : (sendPacket g offset (withApp o (prepared b action p o))).2.memory = o.memory := echoed.memory
    rw [same, memory] at sent
    refine ⟨_, .echoed replies parameter (by rw [← epoch]; exact numbered), sent.intact, sent.waiting,
      sent.memory, sent.epoch.trans epoch⟩

/- The response to `p`, whatever its result. -/
def ResponseTo (memory : Memory) (seq : PacketSeq) (p : Addr) (body : List UInt8) : Prop :=
  ∃ result, body = responseBody seq (memory p) (load16 memory (p + 2)) result

def isResponse (body : List UInt8) : Bool := body.head? = some responsePacketId

theorem AnswersTo.response {sonar : Bool} (answers : AnswersTo sonar memory seq result p group) :
    ∃ body, group.filter isResponse = [body] ∧ ResponseTo memory seq p body := by
  cases answers with
  | alone silent => exact ⟨_, rfl, result, rfl⟩
  | @echoed g body told parameter numbered =>
    have other : isResponse body = false := by
      have header := numbered.header
      cases body with
      | nil => cases header
      | cons type rest =>
        have type : type = g.type := (List.cons.inj header).1
        simp only [parameters, List.mem_cons, List.not_mem_nil, or_false] at parameter
        subst type
        rcases parameter with rfl | rfl | rfl | rfl <;> rfl
    refine ⟨_, ?_, result, rfl⟩
    rw [List.filter_cons_of_neg (by simp [other])]
    rfl

theorem responsesOf {sonar : Bool} {pending : List Addr} {groups : List (List (List UInt8))}
    (answers : List.Forall₂ (Answered sonar memory seq) pending groups) :
    List.Forall₂ (ResponseTo memory seq) pending (groups.flatten.filter isResponse) := by
  induction answers with
  | nil => exact .nil
  | cons here rest ih =>
    obtain ⟨result, told⟩ := here
    obtain ⟨body, only, response⟩ := told.response
    rw [List.flatten_cons, List.filter_append, only]
    exact .cons response ih

end Answers

/-! The batch. -/

/- The firmware when it processes the packets pending. -/
structure Answerable (b : Board F) (m : Machine F) : Prop where
  tabled : Tabled b.sonar m
  intact : Intact b.sonar m.outside

section Batch
variable {b : Board F} {m : Machine F}

theorem roomForAppend (packets more : List Global) : roomFor (packets ++ more) = roomFor packets + roomFor more := by
  simp only [roomFor, List.map_append, List.sum_append]

theorem roomForPositive (packets : List Global) : 0 ≤ roomFor packets := by
  refine List.sum_nonneg fun size member => ?_
  obtain ⟨g, -, rfl⟩ := List.mem_map.mp member
  unfold frameSize
  omega

theorem processLoopEnqueues (pending : List Addr) (answerable : Answerable b m)
    (valid : ∀ p ∈ pending, ValidPending b.sonar m.outside.memory p)
    (room : m.outside.baseHandler.tx.size + roomFor (pending.flatMap (repliesTo b.sonar m.outside.memory)) ≤ packetSizeMax) :
    ∃ groups, List.Forall₂ (Answered b.sonar m.outside.memory m.outside.app.globalSeq) pending groups ∧
      Enqueues b.sonar groups.flatten m.outside (processLoop (act b) m pending).1.outside := by
  induction pending generalizing m with
  | nil => exact ⟨[], .nil, .refl answerable.intact⟩
  | cons p rest ih =>
    obtain ⟨action, found, validHere⟩ := valid p List.mem_cons_self
    have processed := processPacketProcessed answerable.tabled found validHere
    have outside := processPacketActs answerable.tabled found
    rw [List.flatMap_cons, roomForAppend] at room
    have later := roomForPositive (rest.flatMap (repliesTo b.sonar m.outside.memory))
    obtain ⟨group, answers, first⟩ := actEnqueues answerable.intact found validHere (by omega)
    have size := first.size answerable.intact.ring
    rw [answers.length, ← outside] at size
    rw [← outside] at first
    obtain ⟨groups, more, second⟩ := ih ⟨processed.tabled, first.intact⟩
      (fun q member => by
        rw [processed.memory]
        exact valid q (List.mem_cons_of_mem p member))
      (by
        rw [processed.memory, size]
        omega)
    rw [processed.memory, first.epoch] at more
    exact ⟨group :: groups, .cons ⟨_, answers⟩ more, first.trans second⟩

/- One response a packet, in order, each behind what is echoed of its packet. -/
theorem batchAnswered (answerable : Answerable b m)
    (valid : ∀ p ∈ m.queue.pendingPackets, ValidPending b.sonar m.outside.memory p)
    (room : m.outside.baseHandler.tx.size + roomFor (m.queue.pendingPackets.flatMap (repliesTo b.sonar m.outside.memory)) ≤
      packetSizeMax) :
    ∃ groups, List.Forall₂ (Answered b.sonar m.outside.memory m.outside.app.globalSeq) m.queue.pendingPackets groups ∧
      PacketHandler.waiting (processPending b m).outside.baseHandler =
        PacketHandler.waiting m.outside.baseHandler ++ groups.flatten.flatMap PacketHandler.frame ∧
      List.Forall₂ (ResponseTo m.outside.memory m.outside.app.globalSeq) m.queue.pendingPackets
        (groups.flatten.filter isResponse) := by
  obtain ⟨groups, answers, enqueues⟩ := processLoopEnqueues m.queue.pendingPackets answerable valid room
  exact ⟨groups, answers, enqueues.waiting, responsesOf answers⟩

end Batch

/-! Every cycle of a run finds the firmware so. -/

section Runs
variable {b : Board F} {turn : Turn} {line : Line} {m : Machine F} {o : Outside F} {p : Addr} {s : Main F} {k : Nat}

theorem actMarked {action : DeferredAction} (low : k < 2) (found : actionOf b.sonar (o.memory p) = some action)
    (valid : ValidPacket o.memory p action) (marked : Marked b.sonar k o.app) : Marked b.sonar k (act b action p o).app := by
  have ready : Marked b.sonar k (prepared b action p o) := (preparedKeeps (b := b) found valid).marked k low marked
  exact (actSends valid).marked low ready

theorem processLoopMarked (pending : List Addr) (low : k < 2) (tabled : Tabled b.sonar m)
    (valid : ∀ p ∈ pending, ValidPending b.sonar m.outside.memory p) (marked : Marked b.sonar k m.outside.app) :
    Marked b.sonar k (processLoop (act b) m pending).1.outside.app := by
  induction pending generalizing m with
  | nil => exact marked
  | cons p rest ih =>
    obtain ⟨action, found, validHere⟩ := valid p List.mem_cons_self
    have processed := processPacketProcessed tabled found validHere
    have outside := processPacketActs tabled found
    have first := actMarked low found validHere marked
    rw [← outside] at first
    have second := ih processed.tabled (fun q member => by
      rw [processed.memory]
      exact valid q (List.mem_cons_of_mem p member)) first
    exact second

theorem commHandleMarked (low : k < 2) (tabled : Tabled b.sonar m) (valid : ValidBatch b line m)
    (marked : Marked b.sonar k m.outside.app) : Marked b.sonar k (commHandle b line m).2.outside.app := by
  have begun : Marked b.sonar k (beginEpoch line m).outside.app := (beginEpochOnly line m).keeps.marked k low marked
  have processed : Marked b.sonar k (processPending b (beginEpoch line m)).outside.app :=
    processLoopMarked _ low (beginEpochTabled line tabled) valid begun
  have completed := (sendPeriodicOnly b (processPending b (beginEpoch line m)).outside).marked low processed
  have counted : Keeps b.sonar (completeEpoch b (processPending b (beginEpoch line m))).outside.app
      (commHandle b line m).2.outside.app := wordKeeps _ _ (by decide) (by decide) (by decide)
  exact counted.marked k low completed

theorem beforeCommMarked (low : k < 2) (marked : Marked b.sonar k s.app) :
    Marked b.sonar k (beforeComm b turn (idleTurn b s turn)).app :=
  ((idleTurnUnsent b s turn).trans (beforeCommUnsent b turn _)).app.marked k low marked

theorem loopTurnMarked (low : k < 2) (guarded : Guarded b.sonar s) (sound : Sound b s turn) (marked : Marked b.sonar k s.app) :
    Marked b.sonar k (loopTurn b s turn).app := by
  cases handled : handles b s turn with
  | false =>
    rw [loopTurnIdle handled]
    exact (idleTurnUnsent b s turn).app.marked k low marked
  | true =>
    have before : Marked b.sonar k (beforeComm b turn (idleTurn b s turn)).app := beforeCommMarked low marked
    have tabled := (guarded.carried (beforeCommTurn b s turn)).tabled
    rw [loopTurnHandled handled]
    exact (watchedUnsent b turn _ _).app.marked k low (commHandleMarked low tabled (sound handled).1 before)

theorem Ready.answerable (ready : Ready b m) (typed : Marked b.sonar 0 m.outside.app) (line : Line) :
    Answerable b (beginEpoch line m) := by
  have ring : (beginEpoch line m).outside.baseHandler.tx = m.outside.baseHandler.tx := receivedRing line.received _
  have keeps : Keeps b.sonar m.outside.app (beginEpoch line m).outside.app := (beginEpochOnly line m).keeps
  refine ⟨beginEpochTabled line ready.tabled, by rw [ring]; exact ready.ring, fun k low => keeps.marked k low ?_⟩
  obtain rfl | rfl : k = 0 ∨ k = 1 := by omega
  · exact typed
  · exact markedHeaded.mpr ready.headed

theorem answerableAlways {buffers : PacketBuffers} {base : PacketHandler PacketType} {memory eeprom : Memory} {turns : List Turn}
    (bound : Bound (boot b buffers base memory eeprom).app)
    (slots : OrazioClient.load32 eeprom protocolVersionOffset = orazioProtocolVersion → ∀ k, k < 2 → MarkedSlots b.sonar k eeprom)
    (sound : Each (loopTurn b) (Sound b) (boot b buffers base memory eeprom) turns) (turn : Turn) (line : Line) :
    let s := loop b (boot b buffers base memory eeprom) turns
    Answerable b (beginEpoch line (beforeComm b turn (idleTurn b s turn)).machine) := by
  have guarded := bootGuarded bound
  have ready := readyAlways bound (fun same => slots same 1 (by decide)) sound
  have start : Marked b.sonar 0 (boot b buffers base memory eeprom).app :=
    (bootMarked (by decide) fun same => slots same 0 (by decide)).1
  have steps : ∀ s turn, Guarded b.sonar s ∧ Marked b.sonar 0 s.app → Sound b s turn →
      Guarded b.sonar (loopTurn b s turn) ∧ Marked b.sonar 0 (loopTurn b s turn).app :=
    fun s turn inv sound => ⟨loopTurnGuarded inv.1 sound, loopTurnMarked (by decide) inv.1 sound inv.2⟩
  have kept := sound.kept steps ⟨guarded, start⟩
  exact (beforeCommReady kept.1 ready).answerable (beforeCommMarked (by decide) kept.2) line

end Runs

/- The first epoch of the bench, when its packets are to be processed. -/
def firstEpoch (line : Line) : Machine Rat :=
  beginEpoch line (beforeComm bench (commandTurn []) (idleTurn bench booted (commandTurn []))).machine

theorem firstEpochAnswerable (line : Line) : Answerable bench (firstEpoch line) := by
  have answerable : Answerable bench (beginEpoch line
      (beforeComm bench (commandTurn []) (idleTurn bench (loop bench booted []) (commandTurn []))).machine) :=
    @answerableAlways _ bench buffers _ _ _ [] (by decide +kernel) (fun same => absurd same (by decide)) trivial (commandTurn []) line
  exact answerable

/- New parameters, a joint that there is not, and a request. -/
def mixedLine : Line := packetLine [systemParamPacket,
  [jointControlPacketId, sizeofJointControlPacket, 7, 0, 5, 0, 0, jointPwm],
  [paramControlPacketId, sizeofParamControlPacket, 8, 0, paramRequest, paramDrive, 0]]

theorem mixedBatchAnswered : let m := firstEpoch mixedLine
    ∃ groups, List.Forall₂ (Answered false m.outside.memory m.outside.app.globalSeq) m.queue.pendingPackets groups ∧
      PacketHandler.waiting (processPending bench m).outside.baseHandler =
        PacketHandler.waiting m.outside.baseHandler ++ groups.flatten.flatMap PacketHandler.frame ∧
      List.Forall₂ (ResponseTo m.outside.memory m.outside.app.globalSeq) m.queue.pendingPackets
        (groups.flatten.filter isResponse) := by
  have valid : ValidBatch bench mixedLine (beforeComm bench (commandTurn []) (idleTurn bench booted (commandTurn []))).machine := by
    decide +kernel
  exact batchAnswered (firstEpochAnswerable mixedLine) valid (by decide +kernel)

end OrazioLogger.Firmware
