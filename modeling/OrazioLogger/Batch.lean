import OrazioLogger.MainLoop

/-! A batch: the packets that one call of `Orazio_commHandle` finds pending. Its commands take effect one after the
other; what the cycle receives and sends besides has no effect on the control. -/
namespace OrazioLogger.Firmware
open ByteMemory OrazioPackets OrazioComm DeferredPacketHandler
open OrazioClient (load16 store16)

variable {F : Type}

/- The table of `Orazio_initializePackets` by type. -/
def actionOf (sonar : Bool) (type : PacketType) : Option DeferredAction :=
  if type = paramControlPacketId then some .handleParamCtl
  else if type = systemParamPacketId then some (.handlePacket .systemParam)
  else if type = jointControlPacketId then some (.handlePacket .jointControl)
  else if type = jointParamPacketId then some (.handlePacket .jointParam)
  else if type = differentialDriveControlPacketId then some (.handlePacket .driveControl)
  else if type = differentialDriveParamPacketId then some (.handlePacket .driveParam)
  else if type = sonarParamPacketId ∧ sonar then some (.handlePacket .sonarParam)
  else none

def Tabled (sonar : Bool) (m : Machine F) : Prop := ∀ t, (m.queue.packetInfos t).deferredActionFn = actionOf sonar t

def ValidPending (sonar : Bool) (memory : Memory) (p : Addr) : Prop :=
  ∃ action ∈ actionOf sonar (memory p), ValidPacket memory p action

def commandAt (sonar : Bool) (memory : Memory) (p : Addr) : Option Command :=
  (actionOf sonar (memory p)).map (commandOf memory p)

def commandsOf (sonar : Bool) (memory : Memory) (pending : List Addr) : List Command :=
  pending.filterMap (commandAt sonar memory)

def effects (sonar : Bool) (c : Control) (commands : List Command) : Control := commands.foldl (Command.effect sonar) c

theorem effectsAppend (sonar : Bool) (c : Control) (first second : List Command) :
    effects sonar c (first ++ second) = effects sonar (effects sonar c first) second := List.foldl_append

/- The commands of the batch, and that all of it is valid. -/
def batch (b : Board F) (line : Line) (m : Machine F) : List Command :=
  commandsOf b.sonar (beginEpoch line m).outside.memory (beginEpoch line m).queue.pendingPackets

def ValidBatch (b : Board F) (line : Line) (m : Machine F) : Prop :=
  ∀ p ∈ (beginEpoch line m).queue.pendingPackets, ValidPending b.sonar (beginEpoch line m).outside.memory p
instance (b : Board F) (line m) : Decidable (ValidBatch b line m) := by unfold ValidBatch ValidPending; infer_instance

/-! Receiving. -/

/- Words of the system status that neither control nor the watchdog reads. -/
def ReceptionWritten (g : Global) (a : Nat) : Prop := g = .systemStatus ∧ (4 ≤ a ∧ a < 12 ∨ a = 22)

structure ReceptionOnly (m later : Machine F) : Prop where
  same : later.outside.app = { m.outside.app with
    globals := later.outside.app.globals, globalSeq := later.outside.app.globalSeq }
  globals : SameOutside ReceptionWritten m.outside.app later.outside.app

section Reception
variable {m mid later : Machine F}

theorem ReceptionOnly.refl (m : Machine F) : ReceptionOnly m m := ⟨rfl, .refl _⟩

theorem ReceptionOnly.trans (first : ReceptionOnly m mid) (second : ReceptionOnly mid later) : ReceptionOnly m later := by
  refine ⟨?_, first.globals.trans second.globals⟩
  rw [second.same, first.same]

theorem statusWordOnly (m : Machine F) (offset : Nat) (v : State F → UInt16) (low : 4 ≤ offset) (high : offset + 1 < 12) :
    ReceptionOnly m (updateApp m fun f => setWord f .systemStatus offset (v f)) :=
  ⟨rfl, (SameOutside.refl _).setWord _ ⟨rfl, Or.inl ⟨low, by omega⟩⟩ ⟨rfl, Or.inl ⟨by omega, high⟩⟩⟩

theorem countOnly (m : Machine F) (offset : Nat) (low : 4 ≤ offset) (high : offset + 1 < 12) :
    ReceptionOnly m (updateApp m (count · offset)) :=
  statusWordOnly m offset (fun f => load16 (f.globals .systemStatus) offset + 1) low high

theorem receiveByteOnly (m : Machine F) (c : UInt8) : ReceptionOnly m (receiveByte m c) := by
  have received : ReceptionOnly m (rxByte m c).2 := ⟨rfl, .refl _⟩
  unfold receiveByte
  generalize rxByte m c = result at received
  obtain ⟨status, later⟩ := result
  dsimp only at received ⊢
  have failed : ReceptionOnly m (if status.code < 0 then updateApp later (count · 8) else later) := by
    split
    · exact received.trans (countOnly later 8 (by decide) (by decide))
    · exact received
  split
  · exact failed.trans (countOnly _ 6 (by decide) (by decide))
  · exact failed

theorem receiveBytesOnly (bytes : List UInt8) (m : Machine F) : ReceptionOnly m (bytes.foldl receiveByte m) := by
  induction bytes generalizing m with
  | nil => exact .refl m
  | cons c rest ih => exact (receiveByteOnly m c).trans (ih _)

theorem beginEpochOnly (line : Line) (m : Machine F) : ReceptionOnly m (beginEpoch line m) := by
  have received : ReceptionOnly m (flushInputBuffers line m) :=
    (statusWordOnly m 4 (fun _ => line.rxBufferFull) (by decide) (by decide)).trans (receiveBytesOnly line.received _)
  unfold beginEpoch
  exact received.trans ⟨rfl, SameOutside.setByte (.refl _) _ ⟨rfl, Or.inr rfl⟩⟩

theorem ReceptionOnly.control (only : ReceptionOnly m later) : control later.outside.app = control m.outside.app := by
  rw [controlOf only.globals fun g a touched read => by rw [touched.1] at read; exact read, only.same]
  rfl

end Reception

/-! Processing. -/

section Processing
variable {b : Board F} {m later : Machine F}

/- What processing pending packets leaves behind. -/
structure Processed (b : Board F) (commands : List Command) (m later : Machine F) : Prop where
  memory : later.outside.memory = m.outside.memory
  tabled : Tabled b.sonar later
  control : control later.outside.app = effects b.sonar (control m.outside.app) commands
  spares : Spares m.outside.app later.outside.app

theorem processPacketActs {p : Addr} {action : DeferredAction} (tabled : Tabled b.sonar m)
    (found : actionOf b.sonar (m.outside.memory p) = some action) :
    (processPacket (act b) m p).1.outside = act b action p m.outside := by
  have here : (m.queue.packetInfos (m.outside.memory p)).deferredActionFn = some action := (tabled _).trans found
  unfold processPacket
  simp only [here]

theorem processPacketProcessed (tabled : Tabled b.sonar m) {p : Addr} {action : DeferredAction}
    (found : actionOf b.sonar (m.outside.memory p) = some action) (valid : ValidPacket m.outside.memory p action) :
    Processed b [commandOf m.outside.memory p action] m (processPacket (act b) m p).1 := by
  have obeys := actObeys (b := b) valid
  have outside := processPacketActs tabled found
  refine ⟨by rw [outside, obeys.memory], fun t => ?_, by rw [outside, obeys.control]; rfl, by rw [outside]; exact obeys.spares⟩
  rw [← tabled t]
  unfold processPacket
  dsimp only
  by_cases same : t = m.outside.memory p
  · rw [same, Function.update_self]
  · rw [Function.update_of_ne same]

theorem processLoopProcessed (pending : List Addr) (tabled : Tabled b.sonar m)
    (valid : ∀ p ∈ pending, ValidPending b.sonar m.outside.memory p) :
    Processed b (commandsOf b.sonar m.outside.memory pending) m (processLoop (act b) m pending).1 := by
  induction pending generalizing m with
  | nil => exact ⟨rfl, tabled, rfl, .refl _⟩
  | cons p rest ih =>
    obtain ⟨action, found, validHere⟩ := valid p List.mem_cons_self
    have first := processPacketProcessed tabled found validHere
    have second := ih first.tabled fun q member => by
      rw [first.memory]
      exact valid q (List.mem_cons_of_mem p member)
    have command : commandAt b.sonar m.outside.memory p = some (commandOf m.outside.memory p action) := by
      rw [commandAt, found]
      rfl
    refine ⟨second.memory.trans first.memory, second.tabled, ?_, first.spares.trans second.spares⟩
    unfold processLoop
    rw [second.control, first.control, first.memory, commandsOf, commandsOf, List.filterMap_cons_some command]
    rfl

theorem processPendingProcessed (tabled : Tabled b.sonar m)
    (valid : ∀ p ∈ m.queue.pendingPackets, ValidPending b.sonar m.outside.memory p) :
    Processed b (commandsOf b.sonar m.outside.memory m.queue.pendingPackets) m (processPending b m) := by
  obtain ⟨memory, kept, control, spares⟩ := processLoopProcessed m.queue.pendingPackets tabled valid
  exact ⟨memory, kept, control, spares⟩

end Processing

/-! Sending. -/

section Sending
variable {b : Board F} {o : Outside F}

theorem periodicPacketAt (b : Board F) (f : State F) {packet : Global × Nat} (member : packet ∈ periodicPackets b f) :
    PacketAt packet.1 packet.2 := by
  unfold periodicPackets at member
  simp only [List.mem_append] at member
  rcases member with ((system | joints) | drive) | sonar
  · split at system
    · obtain rfl := List.mem_singleton.mp system
      exact .single (by decide)
    · cases system
  · split at joints
    · obtain ⟨i, inside, rfl⟩ := List.mem_map.mp joints
      exact .jointStatus (List.mem_range.mp inside)
    · cases joints
  · split at drive
    · obtain rfl := List.mem_singleton.mp drive
      exact .single (by decide)
    · cases drive
  · split at sonar
    · obtain rfl := List.mem_singleton.mp sonar
      exact .single (by decide)
    · cases sonar

theorem sendAllOnly (packets : List (Global × Nat)) (o : Outside F)
    (sent : ∀ packet ∈ packets, PacketAt packet.1 packet.2) : SendsOnly o (sendAll packets o) := by
  induction packets generalizing o with
  | nil => exact .refl o
  | cons packet rest ih =>
    exact (sendPacketOnly o (sent packet List.mem_cons_self)).trans
      (ih _ fun other member => sent other (List.mem_cons_of_mem packet member))

/- The string message is also marked as sent: sequence number 0. -/
theorem sendMessageOnly (o : Outside F) : SendsOnly o (sendMessage o) := by
  unfold sendMessage
  split
  · have sent := sendPacketOnly (g := .stringMessage) o (.single (by decide))
    exact sent.trans ⟨rfl, rfl, (SameOutside.refl _).setWord 0 (Or.inl rfl) (Or.inr rfl)⟩
  · exact .refl o

theorem sendPeriodicOnly (b : Board F) (o : Outside F) : SendsOnly o (sendPeriodic b o) := by
  unfold sendPeriodic
  refine .trans ?_ (sendPacketOnly _ (.single (by decide)))
  refine .trans ?_ (sendMessageOnly _)
  exact sendAllOnly _ o fun _ member => periodicPacketAt b o.app member

theorem flushOutputControl (line : Line) (m : Machine F) :
    control (flushOutputBuffers line m).2.outside.app = control m.outside.app := by
  have counted : SameOutside (fun g _ => g = .systemStatus) m.outside.app (flushOutputBuffers line m).2.outside.app :=
    (SameOutside.refl m.outside.app).setWord _ rfl rfl
  exact controlOf counted fun g a touched read => by rw [touched] at read; exact read

end Sending

/-! The table stays what `Orazio_commInit` made it. -/

theorem installPacketAction {m : Machine F} {type : PacketType} (size : PacketSize) (buffer : Addr) (n : Int)
    (action : Option DeferredAction) (inRange : type.toNat < packetTypeMax) (t : PacketType) :
    ((installPacket m type size buffer n action).2.queue.packetInfos t).deferredActionFn =
      if t = type then action else (m.queue.packetInfos t).deferredActionFn := by
  unfold installPacket
  rw [if_neg (Nat.not_le_of_lt inRange)]
  dsimp only
  split
  · rename_i same
    rw [same, Function.update_self]
  · rename_i other
    rw [Function.update_of_ne other]

/- The action a list of installations leaves for a type. -/
def installedAction (t : PacketType) : List (Install DeferredAction) → Option DeferredAction → Option DeferredAction
  | [], before => before
  | i :: rest, before => installedAction t rest (if t = i.type then i.action else before)

theorem installAllAction {installs : List (Install DeferredAction)} (inRange : ∀ i ∈ installs, i.type.toNat < packetTypeMax)
    (m : Machine F) (t : PacketType) : ((installAll m installs).queue.packetInfos t).deferredActionFn =
      installedAction t installs (m.queue.packetInfos t).deferredActionFn := by
  induction installs generalizing m with
  | nil => rfl
  | cons i rest ih =>
    refine (ih (fun j member => inRange j (List.mem_cons_of_mem i member)) _).trans ?_
    rw [installPacketAction _ _ _ _ (inRange i List.mem_cons_self)]
    rfl

theorem commInitTabled (sonar : Bool) (buffers : PacketBuffers) (outside : Outside F) :
    Tabled sonar (commInit sonar buffers outside) := by
  have inRange : ∀ i ∈ packets sonar buffers, i.type.toNat < packetTypeMax := by
    cases sonar <;> simp [packets, sonarPackets, install] <;> decide
  intro t
  refine (installAllAction inRange (initializeHandler outside) t).trans ?_
  change installedAction t (packets sonar buffers) none = actionOf sonar t
  by_cases known : t ∈ [paramControlPacketId, systemParamPacketId, jointControlPacketId, jointParamPacketId,
      differentialDriveControlPacketId, differentialDriveParamPacketId, sonarParamPacketId]
  · simp only [List.mem_cons, List.not_mem_nil, or_false] at known
    cases sonar <;> rcases known with rfl | rfl | rfl | rfl | rfl | rfl | rfl <;> rfl
  · simp only [List.mem_cons, List.not_mem_nil, or_false, not_or] at known
    obtain ⟨a, c, d, e, g, h, i⟩ := known
    cases sonar <;> simp [actionOf, packets, sonarPackets, install, installedAction, a, c, d, e, g, h, i]

theorem bootTabled (b : Board F) (buffers : PacketBuffers) (base : PacketHandler PacketType) (memory eeprom : Memory) :
    Tabled b.sonar (boot b buffers base memory eeprom).machine := by
  obtain ⟨m, text, same, tabled⟩ : ∃ m text, (boot b buffers base memory eeprom).machine =
      updateApp m (fun f => commSendString text (setWatchdogCount f (watchdogCycles f))) ∧ Tabled b.sonar m :=
    ⟨commInit b.sonar buffers _, _, rfl, commInitTabled b.sonar buffers _⟩
  rw [same]
  exact tabled

theorem onReceiveTabled {sonar : Bool} {queue : DeferredQueue DeferredAction}
    (tabled : ∀ t, (queue.packetInfos t).deferredActionFn = actionOf sonar t) (packet : Addr) (memory : Memory) (t : PacketType) :
    ((onReceive packet ⟨memory, queue⟩).2.env.packetInfos t).deferredActionFn = actionOf sonar t := by
  unfold onReceive
  dsimp only
  split
  · exact tabled t
  · dsimp only
    by_cases same : t = memory packet
    · rw [same, Function.update_self]
      exact tabled _
    · rw [Function.update_of_ne same]
      exact tabled t

theorem receiveByteTabled {sonar : Bool} {m : Machine F} (c : UInt8) (tabled : Tabled sonar m) :
    Tabled sonar (receiveByte m c) := by
  have received : Tabled sonar (rxByte m c).2 := by
    cases rxByteQueue m c with
    | kept same =>
      intro t
      rw [same]
      exact tabled t
    | received _ packet memory same =>
      intro t
      rw [same]
      exact onReceiveTabled tabled packet memory t
  intro t
  rw [← received t]
  unfold receiveByte
  dsimp only
  split <;> split <;> rfl

theorem beginEpochTabled {sonar : Bool} {m : Machine F} (line : Line) (tabled : Tabled sonar m) :
    Tabled sonar (beginEpoch line m) := by
  have received : ∀ (bytes : List UInt8) (m : Machine F), Tabled sonar m → Tabled sonar (bytes.foldl receiveByte m) := by
    intro bytes
    induction bytes with
    | nil => exact fun _ => id
    | cons c rest ih => exact fun m tabled => ih _ (receiveByteTabled c tabled)
  exact received line.received _ tabled

/-! The cycle. -/

theorem commHandleControl {b : Board F} {line : Line} {m : Machine F} (tabled : Tabled b.sonar m)
    (valid : ValidBatch b line m) :
    control (commHandle b line m).2.outside.app = effects b.sonar (control m.outside.app) (batch b line m) := by
  unfold commHandle completeEpoch
  rw [flushOutputControl, (sendPeriodicOnly b _).control,
    (processPendingProcessed (beginEpochTabled line tabled) valid).control, (beginEpochOnly line m).control]
  rfl

end OrazioLogger.Firmware
