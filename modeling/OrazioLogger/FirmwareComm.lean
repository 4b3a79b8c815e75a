import OrazioLogger.Param

/-! orazio_comm.c: the handlers of the packets from the host and the communication cycle. -/
namespace OrazioLogger.Firmware
open ByteMemory OrazioPackets OrazioComm
open OrazioClient (load16 store16)

variable {F : Type}

/- Deferred actions see the state of the firmware behind the packet handler. -/
abbrev Outside (F : Type) := Surroundings (State F)

def withApp (o : Outside F) (f : State F) : Outside F := { o with app := f }

/- A 16-bit counter of `system_status`. -/
def count (f : State F) (offset : Nat) : State F :=
  setWord f .systemStatus offset (load16 (f.globals .systemStatus) offset + 1)

def countSent (f : State F) (status : PacketStatus) : State F :=
  let f := { f with sendResults := f.sendResults ++ [status] }
  if status = .success then count f 12 else count f 14

/- `Orazio_sendPacket` of the packet at `offset` of a global: the header is written, so it must be inside. -/
def sendPacket (g : Global) (offset : Nat) (o : Outside F) : PacketStatus × Outside F :=
  let f := if offset + sizeofPacketHeader.toNat ≤ g.extent then o.app else o.app.faulted
  let f := setWord f g (offset + 2) f.globalSeq
  let (status, base) := PacketHandler.sendPacket (f.globals g) o.baseHandler offset
  (status, { o with baseHandler := base, app := countSent f status })

/- p_seq, p_type and p_result filled in. -/
def responseTo (p : Addr) (result : PacketStatus) (memory m : Memory) : Memory :=
  let m := store16 m 5 (load16 memory (p + 2))
  let m := store m 4 (memory p)
  store m 7 (UInt8.ofNat (result.code % 256).toNat)

/- `Orazio_sendResponse`. -/
def sendResponse (p : Addr) (result : PacketStatus) (o : Outside F) : Outside F :=
  (sendPacket .response 0
    (withApp o (o.app.set .response (responseTo p result o.memory (o.app.globals .response))))).2

/-! The records passed to `Orazio_handlePacket`. All of them copy. -/

def dest : PacketHandlerArgs → Global
  | .systemParam => .systemParams
  | .driveControl => .driveControl
  | .driveParam => .driveParams
  | .sonarParam => .sonarParams
  | .jointControl => .jointControl
  | .jointParam => .jointParams

def echoes : PacketHandlerArgs → Bool
  | .systemParam | .driveParam | .sonarParam | .jointParam => true
  | .driveControl | .jointControl => false

def disablesDrive : PacketHandlerArgs → Bool
  | .jointControl => true
  | .systemParam | .driveControl | .driveParam | .sonarParam | .jointParam => false

/- `none` is the -1 of a packet that is not in a table. -/
def maxIndex : PacketHandlerArgs → Option Int
  | .jointControl | .jointParam => some numJoints
  | .systemParam | .driveControl | .driveParam | .sonarParam => none

def postCopyFn (b : Board F) : PacketHandlerArgs → Option (State F → PacketStatus × State F)
  | .systemParam | .driveParam => some (driveInit b)
  | .sonarParam => some sonarInit
  | .jointParam => some (jointsInit b)
  | .driveControl | .jointControl => none

def postCopy (b : Board F) (args : PacketHandlerArgs) (f : State F) : PacketStatus × State F :=
  match postCopyFn b args with
  | none => (.success, f)
  | some fn => fn f

/- `memcpy(dest, p, p->size)`, `offset` bytes from the start of the global. -/
def copyPacket (args : PacketHandlerArgs) (offset : Int) (memory : Memory) (p : Addr) (f : State F) : State F :=
  let size := (memory (p + 1)).toNat
  let f := if 0 ≤ offset ∧ offset + size ≤ (dest args).extent then f else f.faulted
  if 0 ≤ offset then f.set (dest args) (copyBytes (f.globals (dest args)) offset.toNat memory p size) else f

/- The copy is sent back. In front of the table there is nothing but the copy. -/
def echo (args : PacketHandlerArgs) (offset : Int) (p : Addr) (o : Outside F) : Outside F :=
  if 0 ≤ offset then (sendPacket (dest args) offset.toNat o).2
  else
    let (status, base) := PacketHandler.sendPacket (store16 o.memory (p + 2) o.app.globalSeq) o.baseHandler p
    { o with baseHandler := base, app := countSent o.app.faulted status }

def index (args : PacketHandlerArgs) (memory : Memory) (p : Addr) : Int :=
  match maxIndex args with
  | none => -1
  | some _ => signed8 (memory (p + 4))

def refused (args : PacketHandlerArgs) (memory : Memory) (p : Addr) : Bool :=
  match maxIndex args with
  | none => false
  | some most => decide (index args memory p ≥ most)

/- Where in its global the packet is copied to. -/
def copyOffset (args : PacketHandlerArgs) (memory : Memory) (p : Addr) : Int :=
  match maxIndex args with
  | none => 0
  | some _ => index args memory p * (memory (p + 1)).toNat

def setRxSeq (memory : Memory) (p : Addr) (f : State F) : State F :=
  setWord f .systemStatus 20 (load16 memory (p + 2))

def handlePacket (b : Board F) (args : PacketHandlerArgs) (p : Addr) (o : Outside F) : PacketStatus × Outside F :=
  let o := withApp o (setRxSeq o.memory p o.app)
  if refused args o.memory p then (.genericError, sendResponse p .genericError o)
  else
    let offset := copyOffset args o.memory p
    let f := if disablesDrive args then setByte o.app .driveStatus 40 0 else o.app
    let f := copyPacket args offset o.memory p f
    let (r, f) := postCopy b args f
    let o := withApp o f
    let o := if echoes args then echo args offset p o else o
    (.success, sendResponse p r o)

/- The parameters a request is about; `&joint_params[ctl->index]` may lie behind the table. -/
def target (b : Board F) (paramType index : UInt8) : Option (Global × Nat) :=
  if paramType = paramSystem then some (.systemParams, 0)
  else if paramType = paramJointsSingle then some (.jointParams, jointParam index.toNat)
  else if paramType = paramDrive then some (.driveParams, 0)
  else if paramType = paramSonar ∧ b.sonar then some (.sonarParams, 0)
  else none

def handleParamCtl (b : Board F) (p : Addr) (o : Outside F) : PacketStatus × Outside F :=
  let action := o.memory (p + 4)
  let paramType := o.memory (p + 5)
  let index := o.memory (p + 6)
  let f := setRxSeq o.memory p o.app
  let (r, f) :=
    if action = paramRequest then (.success, f)
    else if action = paramLoadAction then paramLoad b paramType (signed8 index) f
    else if action = paramSaveAction then paramSave b paramType (signed8 index) f
    else (.genericError, f)
  let o := withApp o f
  let o := match target b paramType index with
    | none => o
    | some (g, offset) => (sendPacket g offset o).2
  (r, sendResponse p r o)

/- The deferred actions of the table. -/
def act (b : Board F) : DeferredAction → Addr → Outside F → Outside F
  | .handleParamCtl, p, o => (handleParamCtl b p o).2
  | .handlePacket args, p, o => (handlePacket b args p o).2

/-! The communication cycle. -/

abbrev Machine (F : Type) := DeferredPacketHandler DeferredAction (State F)

def updateApp (m : Machine F) (change : State F → State F) : Machine F :=
  { m with outside := withApp m.outside (change m.outside.app) }

/- One turn of the loop of `Orazio_flushInputBuffers`. -/
def receiveByte (m : Machine F) (c : UInt8) : Machine F :=
  let (status, m) := DeferredPacketHandler.rxByte m c
  let m := if status.code < 0 then updateApp m (count · 8) else m
  if status = .syncChecksum then updateApp m (count · 6) else m

/- What the UART has for the cycle: how many bytes wait at its start, the bytes read until none waits any more, and how
many bytes are still to be transmitted after it. -/
structure Line where
  rxBufferFull : UInt16
  received : List UInt8
  txBufferFull : UInt16

def flushInputBuffers (line : Line) (m : Machine F) : Machine F :=
  line.received.foldl receiveByte (updateApp m (setWord · .systemStatus 4 line.rxBufferFull))

/- The loop of `Orazio_flushOutputBuffers`, with the bytes it hands to the UART; there are no more turns than bytes. -/
def drain : Nat → PacketHandler PacketType → List UInt8 × PacketHandler PacketType
  | 0, h => ([], h)
  | turns + 1, h =>
    if h.tx.size = 0 then ([], h)
    else
      let (c, h) := PacketHandler.txByte h
      let (rest, h) := drain turns h
      (c :: rest, h)

def flushOutputBuffers (line : Line) (m : Machine F) : List UInt8 × Machine F :=
  let (bytes, base) := drain m.outside.baseHandler.tx.size.toNat m.outside.baseHandler
  (bytes, updateApp { m with outside := { m.outside with baseHandler := base } }
    (setWord · .systemStatus 10 line.txBufferFull))

def pSystemStatusFlag : UInt8 := 0x1
def pJointStatusFlag : UInt8 := 0x2
def pDriveStatusFlag : UInt8 := 0x4
def pSonarStatusFlag : UInt8 := 0x8

/- The packets sent at the end of every cycle, in the order of the source. -/
def periodicPackets (b : Board F) (f : State F) : List (Global × Nat) :=
  let mask := periodicPacketMask f
  (if mask &&& pSystemStatusFlag ≠ 0 then [(.systemStatus, 0)] else []) ++
    (if mask &&& pJointStatusFlag ≠ 0 then (List.range numJoints).map fun i => (.jointStatus, jointStatusAt i) else []) ++
    (if mask &&& pDriveStatusFlag ≠ 0 then [(.driveStatus, 0)] else []) ++
    if b.sonar ∧ mask &&& pSonarStatusFlag ≠ 0 ∧ f.sonarReady then [(.sonarStatus, 0)] else []

def sendAll (packets : List (Global × Nat)) (o : Outside F) : Outside F :=
  packets.foldl (fun o packet => (sendPacket packet.1 packet.2 o).2) o

def messagePending (f : State F) : Bool :=
  0 < load16 (f.globals .stringMessage) 2 ∧ f.globals .stringMessage 4 ≠ 0

def sendMessage (o : Outside F) : Outside F :=
  if messagePending o.app then
    let o := (sendPacket .stringMessage 0 o).2
    withApp o (setWord o.app .stringMessage 2 0)
  else o

def sendPeriodic (b : Board F) (o : Outside F) : Outside F :=
  (sendPacket .endEpoch 0 (sendMessage (sendAll (periodicPackets b o.app) o))).2

/- `Orazio_commHandle` up to the flush of the output: the packets pending are processed, then the epoch is completed. -/
def beginEpoch (line : Line) (m : Machine F) : Machine F :=
  let m := flushInputBuffers line m
  updateApp m fun f => setByte { f with globalSeq := f.globalSeq + 1 } .systemStatus 22
    (UInt8.ofNat m.queue.pendingPackets.length)

def processPending (b : Board F) (m : Machine F) : Machine F :=
  (DeferredPacketHandler.processPendingPackets (act b) m).1

def completeEpoch (b : Board F) (m : Machine F) : Machine F :=
  { m with outside := sendPeriodic b m.outside }

def commHandle (b : Board F) (line : Line) (m : Machine F) : List UInt8 × Machine F :=
  flushOutputBuffers line (completeEpoch b (processPending b (beginEpoch line m)))

def messageMaxSize : Nat := 80

/- The bytes of a string up to its end or the size of the packet. -/
def commSendString (text : List UInt8) (f : State F) : State F :=
  let chars := (text.takeWhile (· ≠ 0)).take (messageMaxSize - 1) ++ [0]
  let m := copyBytes (f.globals .stringMessage) 4 (fun i => chars.getD i 0) 0 chars.length
  f.set .stringMessage (store16 m 2 1)

/-! What sending can change: the numbers of the packets sent, the counters, and the response. -/

/- A packet that is sent, by its global and its place in it. -/
inductive PacketAt : Global → Nat → Prop where
  | joint {i : Nat} (inside : i < numJoints) : PacketAt .jointParams (jointParam i)
  | jointStatus {i : Nat} (inside : i < numJoints) : PacketAt .jointStatus (jointStatusAt i)
  | single {g : Global} (sent : g ∈ [.systemParams, .systemStatus, .driveParams, .driveStatus, .stringMessage,
      .sonarStatus, .sonarParams, .response, .endEpoch]) : PacketAt g 0

def Stamped : Global → Nat → Prop
  | .driveControl, _ | .jointControl, _ => False
  | .jointParams, a => a % 25 = 2 ∨ a % 25 = 3
  | .jointStatus, a => a % 16 = 2 ∨ a % 16 = 3
  | .systemStatus, a => a = 2 ∨ a = 3 ∨ 12 ≤ a ∧ a < 16
  | .response, a => 2 ≤ a ∧ a < 8
  | _, a => a = 2 ∨ a = 3

structure SendsOnly (o later : Outside F) : Prop where
  memory : later.memory = o.memory
  same : later.app = { o.app with globals := later.app.globals, sendResults := later.app.sendResults }
  globals : SameOutside Stamped o.app later.app

section Sends
variable {o mid later : Outside F}

theorem SendsOnly.refl (o : Outside F) : SendsOnly o o := ⟨rfl, rfl, .refl _⟩

theorem SendsOnly.trans (first : SendsOnly o mid) (second : SendsOnly mid later) : SendsOnly o later := by
  refine ⟨second.memory.trans first.memory, ?_, first.globals.trans second.globals⟩
  rw [second.same, first.same]

theorem PacketAt.inside {g : Global} {offset : Nat} (packet : PacketAt g offset) : offset + 4 ≤ g.extent := by
  cases packet with
  | joint inside =>
    have extent : Global.jointParams.extent = 50 := rfl
    rw [extent, jointParamEntry]
    simp only [numJoints] at inside
    omega
  | jointStatus inside =>
    have extent : Global.jointStatus.extent = 32 := rfl
    rw [extent, jointStatusEntry]
    simp only [numJoints] at inside
    omega
  | single => cases g <;> decide

theorem PacketAt.stamped {g : Global} {offset : Nat} (packet : PacketAt g offset) :
    Stamped g (offset + 2) ∧ Stamped g (offset + 3) := by
  cases packet with
  | joint | jointStatus =>
    simp only [jointParamEntry, jointStatusEntry, Stamped]
    omega
  | single sent => cases g <;> simp [Stamped] at sent ⊢

theorem countSentResults (f : State F) (status : PacketStatus) :
    (countSent f status).sendResults = f.sendResults ++ [status] := by
  unfold countSent
  dsimp only
  split <;> rfl

theorem countSentOther (f : State F) (status : PacketStatus) {g : Global} (other : g ≠ .systemStatus) :
    (countSent f status).globals g = f.globals g := by
  unfold countSent
  dsimp only
  split <;> exact setOther _ _ _ other

theorem sendPacketOther {g other : Global} (offset : Nat) (o : Outside F) (apart : other ≠ g) (counters : other ≠ .systemStatus) :
    (sendPacket g offset o).2.app.globals other = o.app.globals other := by
  unfold sendPacket
  dsimp only
  rw [countSentOther _ _ counters]
  refine (setOther _ _ _ apart).trans ?_
  split <;> rfl

/- The number in the header and `tx_packets` or `tx_packet_errors`. -/
theorem sendPacketWrites {touched : Global → Nat → Prop} {g : Global} {offset : Nat} (o : Outside F)
    (low : touched g (offset + 2)) (high : touched g (offset + 3)) (counters : ∀ a, 12 ≤ a → a < 16 → touched .systemStatus a) :
    SameOutside touched o.app (sendPacket g offset o).2.app := by
  have began : SameOutside touched o.app (if offset + sizeofPacketHeader.toNat ≤ g.extent then o.app else o.app.faulted) := by
    split <;> exact fun _ _ _ => rfl
  unfold sendPacket
  dsimp only
  generalize (if offset + sizeofPacketHeader.toNat ≤ g.extent then o.app else o.app.faulted) = f at began ⊢
  have numbered := began.setWord f.globalSeq low high
  unfold countSent
  dsimp only
  split
  · exact numbered.setWord _ (counters 12 (by decide) (by decide)) (counters 13 (by decide) (by decide))
  · exact numbered.setWord _ (counters 14 (by decide) (by decide)) (counters 15 (by decide) (by decide))

theorem sendPacketOnly {g : Global} {offset : Nat} (o : Outside F) (packet : PacketAt g offset) :
    SendsOnly o (sendPacket g offset o).2 := by
  have inside : offset + sizeofPacketHeader.toNat ≤ g.extent := packet.inside
  refine ⟨rfl, ?_, sendPacketWrites o packet.stamped.1 packet.stamped.2 fun a low high => Or.inr (Or.inr ⟨low, high⟩)⟩
  unfold sendPacket
  rw [if_pos inside]
  dsimp only
  unfold countSent
  dsimp only
  split <;> rfl

theorem responseToOutside (p : Addr) (result : PacketStatus) (memory m : Memory) {a : Nat} (outside : ¬ (4 ≤ a ∧ a < 8)) :
    responseTo p result memory m a = m a := by
  have apart : ∀ i, 4 ≤ i → i < 8 → a ≠ i := fun i low high same => outside ⟨by omega, by omega⟩
  unfold responseTo
  rw [storeOther _ (apart 7 (by decide) (by decide)), storeOther _ (apart 4 (by decide) (by decide))]
  exact (storeOther _ (apart 6 (by decide) (by decide))).trans (storeOther _ (apart 5 (by decide) (by decide)))

theorem sendResponseOnly (p : Addr) (result : PacketStatus) (o : Outside F) : SendsOnly o (sendResponse p result o) := by
  have filled : SameOutside Stamped o.app (o.app.set .response (responseTo p result o.memory (o.app.globals .response))) :=
    (SameOutside.refl o.app).set fun a outside => responseToOutside p result _ _ fun inside =>
      outside ⟨by omega, inside.2⟩
  have prepared : SendsOnly o
      (withApp o (o.app.set .response (responseTo p result o.memory (o.app.globals .response)))) := ⟨rfl, rfl, filled⟩
  unfold sendResponse
  exact prepared.trans (sendPacketOnly _ (.single (by decide)))

end Sends

end OrazioLogger.Firmware
