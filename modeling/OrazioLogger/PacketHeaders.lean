import OrazioLogger.WatchdogRuns

/-! The headers of the packets: all that the firmware sends, loads or saves keeps its type and the size of its type. -/
namespace OrazioLogger.Firmware
open ByteMemory OrazioPackets OrazioComm
open OrazioClient (load16 load32 store16 store32 store32Outside)

variable {F : Type}

/-! The two bytes in front of a packet. -/

def Global.type : Global → PacketType
  | .systemParams => systemParamPacketId
  | .systemStatus => systemStatusPacketId
  | .driveParams => differentialDriveParamPacketId
  | .driveStatus => differentialDriveStatusPacketId
  | .driveControl => differentialDriveControlPacketId
  | .jointParams => jointParamPacketId
  | .jointStatus => jointStatusPacketId
  | .jointControl => jointControlPacketId
  | .stringMessage => messagePacketId
  | .sonarStatus => sonarStatusPacketId
  | .sonarParams => sonarParamPacketId
  | .response => responsePacketId
  | .endEpoch => endEpochPacketId

def Global.size : Global → PacketSize
  | .systemParams => sizeofSystemParamPacket
  | .systemStatus => sizeofSystemStatusPacket
  | .driveParams => sizeofDifferentialDriveParamPacket
  | .driveStatus => sizeofDifferentialDriveStatusPacket
  | .driveControl => sizeofDifferentialDriveControlPacket
  | .jointParams => sizeofJointParamPacket
  | .jointStatus => sizeofJointStatusPacket
  | .jointControl => sizeofJointControlPacket
  | .stringMessage => sizeofStringMessagePacket
  | .sonarStatus => sizeofSonarStatusPacket
  | .sonarParams => sizeofSonarParamPacket
  | .response => sizeofResponsePacket
  | .endEpoch => sizeofEndEpochPacket

def Global.header (g : Global) : Nat → UInt8
  | 0 => g.type
  | _ => g.size

/- Where in the EEPROM which packet is kept; the sonars have their slot only if they are compiled in. -/
inductive SlotAt (sonar : Bool) : Nat → Global → Nat → Prop where
  | system : SlotAt sonar systemParamOffset .systemParams 0
  | drive : SlotAt sonar driveParamOffset .driveParams 0
  | sonar (used : sonar = true) : SlotAt sonar sonarParamOffset .sonarParams 0
  | joint {i : Nat} (inside : i < numJoints) : SlotAt sonar (jointSlot i) .jointParams (jointParam i)

def HeadedSlots (sonar : Bool) (eeprom : Memory) : Prop :=
  ∀ slot g offset, SlotAt sonar slot g offset → eeprom (slot + 1) = g.size

structure Headed (sonar : Bool) (f : State F) : Prop where
  globals : ∀ g offset, PacketAt g offset → f.globals g (offset + 1) = g.size
  eeprom : HeadedSlots sonar f.eeprom

def MarkedSlots (sonar : Bool) (k : Nat) (eeprom : Memory) : Prop :=
  ∀ slot g offset, SlotAt sonar slot g offset → eeprom (slot + k) = g.header k

/- Byte `k` of every header is right. -/
structure Marked (sonar : Bool) (k : Nat) (f : State F) : Prop where
  globals : ∀ g offset, PacketAt g offset → f.globals g (offset + k) = g.header k
  eeprom : MarkedSlots sonar k f.eeprom

theorem markedHeaded {sonar : Bool} {f : State F} : Marked sonar 1 f ↔ Headed sonar f :=
  ⟨fun marked => ⟨marked.globals, marked.eeprom⟩, fun headed => ⟨headed.globals, headed.eeprom⟩⟩

theorem jointSlotEntry {i : Nat} (inside : i < numJoints) : jointSlot i = 114 + 25 * i := by
  have place : jointSlot i = ((114 + 25 * (i : Int)) % 65536).toNat := rfl
  rw [numJoints] at inside
  rw [place]
  omega

theorem SlotAt.packet {sonar : Bool} {slot offset : Nat} {g : Global} (at_ : SlotAt sonar slot g offset) : PacketAt g offset := by
  cases at_ with
  | system | drive | sonar => exact .single (by decide)
  | joint inside => exact .joint inside

/- A header lies in no other slot than its own. -/
theorem SlotAt.apart {sonar : Bool} {slot offset : Nat} {g : Global} {slot' offset' k : Nat} {g' : Global}
    (first : SlotAt sonar slot g offset) (second : SlotAt sonar slot' g' offset') (low : k < 2)
    (here : slot ≤ slot' + k ∧ slot' + k < slot + g.size.toNat) :
    slot' = slot ∧ g' = g ∧ offset' = offset := by
  have system : systemParamOffset = 40 := rfl
  have drive : driveParamOffset = 64 := rfl
  have sonars : sonarParamOffset = 102 := rfl
  have sizes : Global.systemParams.size.toNat = 24 ∧ Global.driveParams.size.toNat = 38 ∧
      Global.sonarParams.size.toNat = 12 ∧ Global.jointParams.size.toNat = 25 := ⟨rfl, rfl, rfl, rfl⟩
  cases first with
  | system | drive | sonar =>
    cases second with
    | system | drive | sonar => first | exact ⟨rfl, rfl, rfl⟩ | omega
    | joint inside =>
      rw [jointSlotEntry inside] at here
      omega
  | joint inside =>
    rw [jointSlotEntry inside] at here
    cases second with
    | system | drive | sonar => omega
    | joint inside' =>
      rw [jointSlotEntry inside'] at here
      rename_i i j
      obtain rfl : i = j := by omega
      exact ⟨rfl, rfl, rfl⟩

def MarkedGlobals (k : Nat) (f : State F) : Prop := ∀ g offset, PacketAt g offset → f.globals g (offset + k) = g.header k

/- The slots that have been saved. -/
def SavedIn (sonar : Bool) (k : Nat) (saved : Nat → Prop) (eeprom : Memory) : Prop :=
  ∀ slot g offset, SlotAt sonar slot g offset → saved slot → eeprom (slot + k) = g.header k

structure Saving (sonar : Bool) (k : Nat) (saved : Nat → Prop) (f : State F) : Prop where
  globals : MarkedGlobals k f
  slots : SavedIn sonar k saved f.eeprom

theorem Saving.write {sonar : Bool} {f : State F} {saved : Nat → Prop} {slot offset k : Nat} {g : Global}
    (saving : Saving sonar k saved f) (low : k < 2) (at_ : SlotAt sonar slot g offset) :
    Saving sonar k (fun other => saved other ∨ other = slot) (eepromWrite f slot g offset g.size.toNat) := by
  refine ⟨saving.globals, fun slot' g' offset' other done => ?_⟩
  change copyBytes f.eeprom slot (f.globals g) offset g.size.toNat (slot' + k) = _
  by_cases here : slot ≤ slot' + k ∧ slot' + k < slot + g.size.toNat
  · obtain ⟨rfl, rfl, rfl⟩ := at_.apart other low here
    rw [copyBytesInside (by omega)]
    exact saving.globals _ _ at_.packet
  · rw [copyBytesOutside (by omega)]
    have length : 1 < g.size.toNat := by cases at_ <;> decide
    refine saving.slots _ _ _ other (done.resolve_right ?_)
    rintro rfl
    exact here ⟨by omega, by omega⟩

/-! Between two packets sent. -/

structure Keeps (sonar : Bool) (f later : State F) : Prop where
  marked : ∀ k, k < 2 → Marked sonar k f → Marked sonar k later
  message : later.globals .stringMessage = f.globals .stringMessage
  results : later.sendResults = f.sendResults

section Keeps
variable {sonar : Bool} {touched : Global → Nat → Prop} {b : Board F} {f mid later : State F} {k : Nat}

theorem Keeps.refl (f : State F) : Keeps sonar f f := ⟨fun _ _ => id, rfl, rfl⟩

theorem Keeps.trans (first : Keeps sonar f mid) (second : Keeps sonar mid later) : Keeps sonar f later :=
  ⟨fun k low marked => second.marked k low (first.marked k low marked), second.message.trans first.message,
    second.results.trans first.results⟩

theorem Keeps.headed (keeps : Keeps sonar f later) (headed : Headed sonar f) : Headed sonar later :=
  markedHeaded.mp (keeps.marked 1 (by decide) (markedHeaded.mpr headed))

theorem Marked.outside (marked : Marked sonar k f) (low : k < 2) (same : SameOutside touched f later)
    (apart : ∀ g offset k, PacketAt g offset → k < 2 → ¬ touched g (offset + k)) (eeprom : later.eeprom = f.eeprom) :
    Marked sonar k later := by
  refine ⟨fun g offset packet => (same g _ (apart g offset k packet low)).trans (marked.globals g offset packet), ?_⟩
  rw [eeprom]
  exact marked.eeprom

theorem keepsOutside (same : SameOutside touched f later)
    (apart : ∀ g offset k, PacketAt g offset → k < 2 → ¬ touched g (offset + k))
    (message : ∀ a, ¬ touched .stringMessage a) (eeprom : later.eeprom = f.eeprom)
    (results : later.sendResults = f.sendResults) : Keeps sonar f later :=
  ⟨fun _ low marked => marked.outside low same apart eeprom, funext fun a => same _ a (message a), results⟩

/- A global that holds one packet, written behind its type and size. -/
def Behind (g : Global) (other : Global) (a : Nat) : Prop := other = g ∧ 2 ≤ a

theorem behindHeader {g other : Global} {offset : Nat} (single : g ∉ [.jointParams, .jointStatus]) (packet : PacketAt other offset)
    (low : k < 2) : ¬ Behind g other (offset + k) := by
  rintro ⟨rfl, high⟩
  cases packet with
  | joint | jointStatus => simp at single
  | single => omega

theorem Marked.behind {g : Global} (marked : Marked sonar k f) (low : k < 2) (same : SameOutside (Behind g) f later)
    (single : g ∉ [.jointParams, .jointStatus]) (eeprom : later.eeprom = f.eeprom) : Marked sonar k later :=
  marked.outside low same (fun _ _ _ => behindHeader single) eeprom

theorem behindKeeps {g : Global} (same : SameOutside (Behind g) f later) (single : g ∉ [.jointParams, .jointStatus])
    (quiet : g ≠ .stringMessage) (eeprom : later.eeprom = f.eeprom) (results : later.sendResults = f.sendResults) :
    Keeps sonar f later :=
  keepsOutside same (fun _ _ _ => behindHeader single) (fun _ here => quiet here.1.symm) eeprom results

theorem wordKeeps {g : Global} {offset : Nat} (v : UInt16) (f : State F) (low : 2 ≤ offset)
    (single : g ∉ [.jointParams, .jointStatus]) (quiet : g ≠ .stringMessage) : Keeps sonar f (setWord f g offset v) :=
  behindKeeps ((SameOutside.refl f).setWord v ⟨rfl, low⟩ ⟨rfl, le_trans low (Nat.le_succ _)⟩) single quiet rfl rfl

theorem byteKeeps {g : Global} {offset : Nat} (c : UInt8) (f : State F) (low : 2 ≤ offset)
    (single : g ∉ [.jointParams, .jointStatus]) (quiet : g ≠ .stringMessage) : Keeps sonar f (setByte f g offset c) :=
  behindKeeps ((SameOutside.refl f).setByte c ⟨rfl, low⟩) single quiet rfl rfl

theorem PacketAt.unstamped {g : Global} {offset : Nat} (packet : PacketAt g offset) (low : k < 2) : ¬ Stamped g (offset + k) := by
  cases packet with
  | joint | jointStatus =>
    simp only [jointParamEntry, jointStatusEntry, Stamped]
    omega
  | single sent => cases g <;> simp [Stamped] at sent ⊢ <;> omega

theorem JointsOnly.keeps (only : JointsOnly f later) : Keeps sonar f later := by
  refine keepsOutside only.globals ?_ (fun a written => nomatch written.1) (by rw [only.same]) (by rw [only.same])
  rintro g offset k packet low ⟨rfl, i, -, pin, small, place⟩
  cases packet with
  | joint =>
    simp only [jointParamEntry, pinAt] at place
    omega
  | single sent => simp at sent

theorem DriveOnly.keeps (only : DriveOnly f later) : Keeps sonar f later := by
  refine keepsOutside only.globals ?_ (fun a written => nomatch written.1) (by rw [only.same]) (by rw [only.same])
  rintro g offset k packet small ⟨rfl, low, -⟩
  cases packet with
  | single => omega

theorem sonarInitKeeps (f : State F) : Keeps sonar f (sonarInit f).2 :=
  ⟨fun _ _ marked => ⟨marked.globals, marked.eeprom⟩, rfl, rfl⟩

theorem faultedKeeps (f : State F) : Keeps sonar f f.faulted := ⟨fun _ _ marked => ⟨marked.globals, marked.eeprom⟩, rfl, rfl⟩

/- A packet copied to where its kind belongs. -/
theorem copyKeeps {g : Global} {offset : Nat} (source : Memory) (src : Nat) (f : State F)
    (entry : ∀ other k, PacketAt g other → k < 2 → offset ≤ other + k → other + k < offset + g.size.toNat → other = offset)
    (header : ∀ k, k < 2 → Marked sonar k f → source (src + k) = g.header k) (quiet : g ≠ .stringMessage) :
    Keeps sonar f (f.set g (copyBytes (f.globals g) offset source src g.size.toNat)) := by
  refine ⟨fun k low before => ⟨fun h other packet => ?_, before.eeprom⟩, setOther f g _ quiet.symm, rfl⟩
  by_cases same : h = g
  · subst same
    rw [setSame]
    by_cases here : offset ≤ other + k ∧ other + k < offset + h.size.toNat
    · obtain rfl := entry other k packet low here.1 here.2
      rw [copyBytesInside (by omega)]
      exact header k low before
    · rw [copyBytesOutside (by omega)]
      exact before.globals h other packet
  · rw [setOther f g _ same]
    exact before.globals h other packet

/- Only the entry of its own joint is hit. -/
theorem jointEntryAlone {i other : Nat} (packet : PacketAt .jointParams other) (small : k < 2) (low : jointParam i ≤ other + k)
    (high : other + k < jointParam i + Global.jointParams.size.toNat) : other = jointParam i := by
  have size : Global.jointParams.size.toNat = 25 := rfl
  cases packet with
  | joint =>
    simp only [jointParamEntry] at low high ⊢
    omega
  | single sent => simp at sent

theorem startAlone {g : Global} {other : Nat} (single : g ∉ [.jointParams, .jointStatus]) (packet : PacketAt g other) :
    other = 0 := by
  cases packet with
  | joint | jointStatus => simp at single
  | single => rfl

/- A packet is of the type of the global it is copied to. -/
theorem actionTyped {t : PacketType} {args : PacketHandlerArgs} (found : actionOf sonar t = some (.handlePacket args)) :
    t = (dest args).type := by
  unfold actionOf at found
  split_ifs at found with control system joint param drive driveParam sonars <;> cases found
  · exact system
  · exact joint
  · exact param
  · exact drive
  · exact driveParam
  · exact sonars.1

/- A valid packet takes its header along. -/
theorem copyPacketKeeps {args : PacketHandlerArgs} {memory : Memory} {p : Addr} (f : State F)
    (typed : memory p = (dest args).type) (valid : ValidPacket memory p (.handlePacket args))
    (taken : refused args memory p = false) :
    Keeps sonar f (copyPacket args (copyOffset args memory p) memory p f) := by
  obtain ⟨offset, place, inside, -⟩ := valid.copyOffset taken
  have size : argsSize args = (dest args).size := by cases args <;> rfl
  rw [place, copyPacketInside valid.1 inside, size]
  have header : ∀ k : Nat, k < 2 → memory (p + k) = (dest args).header k := by
    intro k low
    obtain rfl | rfl : k = 0 ∨ k = 1 := by omega
    · exact typed
    · exact valid.1.trans size
  refine copyKeeps memory p f ?_ (fun k low _ => header k low) (by cases args <;> decide)
  cases args with
  | jointParam =>
    obtain ⟨i, joint, same⟩ := valid.indexed rfl taken
    have headed : memory (p + 1) = 25 := valid.1
    have entry : offset = jointParam i := by
      have product : copyOffset .jointParam memory p = i * 25 := by
        simp only [copyOffset, maxIndex, same, headed]
        rfl
      rw [product] at place
      rw [jointParamEntry]
      omega
    subst entry
    exact fun other _ packet => jointEntryAlone packet
  | jointControl =>
    intro other _ packet
    cases packet with
    | single sent => simp [dest] at sent
  | systemParam | driveControl | driveParam | sonarParam =>
    obtain rfl : offset = 0 := Int.ofNat_inj.mp place.symm
    exact fun other _ packet _ _ _ => startAlone (by decide) packet

theorem postCopyKeeps (b : Board F) (args : PacketHandlerArgs) (f : State F) : Keeps sonar f (postCopy b args f).2 := by
  cases args with
  | driveControl | jointControl => exact .refl f
  | systemParam | driveParam => exact (driveInitOnly b f).keeps
  | sonarParam => exact sonarInitKeeps f
  | jointParam => exact (jointsInitEnds b f).only.keeps

theorem setRxSeqKeeps (memory : Memory) (p : Addr) (f : State F) : Keeps sonar f (setRxSeq memory p f) :=
  wordKeeps _ f (by decide) (by decide) (by decide)

theorem handledKeeps {args : PacketHandlerArgs} {o : Outside F} {p : Addr} (typed : o.memory p = (dest args).type)
    (valid : ValidPacket o.memory p (.handlePacket args)) (taken : refused args o.memory p = false) :
    Keeps sonar o.app (handled b args p o).2 := by
  unfold handled
  refine .trans ?_ (postCopyKeeps b args _)
  refine .trans ?_ (copyPacketKeeps _ typed valid taken)
  refine (setRxSeqKeeps o.memory p o.app).trans ?_
  split
  · exact byteKeeps 0 _ (by decide) (by decide) (by decide)
  · exact .refl _

/- A packet read from its slot, or written to it. -/
theorem eepromReadKeeps {slot offset : Nat} {g : Global} (f : State F) (at_ : SlotAt sonar slot g offset) :
    Keeps sonar f (eepromRead f g offset slot g.size.toNat) := by
  refine copyKeeps f.eeprom slot f ?_ (fun k _ marked => marked.eeprom slot g offset at_) (by cases at_ <;> decide)
  cases at_ with
  | joint inside => exact fun other _ packet => jointEntryAlone packet
  | system | drive | sonar => exact fun other _ packet _ _ _ => startAlone (by decide) packet

theorem eepromWriteKeeps {slot offset : Nat} {g : Global} (f : State F) (at_ : SlotAt sonar slot g offset) :
    Keeps sonar f (eepromWrite f slot g offset g.size.toNat) := by
  refine ⟨fun k low marked => ?_, rfl, rfl⟩
  have before : Saving sonar k (fun _ => True) f := ⟨marked.globals, fun slot g offset at_ _ => marked.eeprom slot g offset at_⟩
  have after := before.write low at_
  exact ⟨after.globals, fun slot g offset at_ => after.slots slot g offset at_ (Or.inl trivial)⟩

theorem paramSetKeeps (b : Board F) (paramType : UInt8) (f : State F) : Keeps sonar f (paramSet b paramType f).2 := by
  unfold paramSet
  split
  · exact (driveInitOnly b f).keeps
  split
  · exact (jointsInitEnds b f).only.keeps
  split
  · exact (driveInitOnly b f).keeps
  split
  · exact sonarInitKeeps f
  · exact .refl f

theorem checkIndexKeeps (index : Int) (f : State F) : Keeps sonar f (checkIndex f index) := by
  unfold checkIndex
  split
  · exact .refl f
  · exact faultedKeeps f

theorem jointSlotAt {index : Int} (joint : JointIndex index) :
    SlotAt sonar (jointSlot index) .jointParams (jointParam index.toNat) := by
  have whole : (index.toNat : Int) = index := Int.toNat_of_nonneg joint.1
  have inside : index.toNat < numJoints := by have := joint.2; omega
  have slot : SlotAt sonar _ _ _ := .joint inside
  rwa [whole] at slot

theorem paramLoadKeeps (b : Board F) {paramType : UInt8} {index : Int} (f : State F)
    (valid : paramType = paramJointsSingle → JointIndex index) : Keeps b.sonar f (paramLoad b paramType index f).2 := by
  unfold paramLoad
  split
  · exact (eepromReadKeeps f .system).trans (paramSetKeeps b _ _)
  split
  · rename_i joints
    dsimp only
    rw [if_pos (valid joints).1]
    refine .trans ?_ (paramSetKeeps b _ _)
    exact (checkIndexKeeps index f).trans (eepromReadKeeps _ (jointSlotAt (valid joints)))
  split
  · exact (eepromReadKeeps f .drive).trans (paramSetKeeps b _ _)
  split
  · rename_i compiled
    exact (eepromReadKeeps f (.sonar compiled.2)).trans (paramSetKeeps b _ _)
  · exact .refl f

theorem paramSaveKeeps (b : Board F) {paramType : UInt8} {index : Int} (f : State F)
    (valid : paramType = paramJointsSingle → JointIndex index) : Keeps b.sonar f (paramSave b paramType index f).2 := by
  unfold paramSave
  split
  · exact eepromWriteKeeps f .system
  split
  · rename_i joints
    exact (checkIndexKeeps index f).trans (eepromWriteKeeps _ (jointSlotAt (valid joints)))
  split
  · exact eepromWriteKeeps f .drive
  split
  · rename_i compiled
    exact eepromWriteKeeps f (.sonar compiled.2)
  · exact .refl f

theorem requestedKeeps {o : Outside F} {p : Addr} (valid : ValidPacket o.memory p .handleParamCtl) :
    Keeps b.sonar o.app (requested b p o).2 := by
  have numbered : Keeps b.sonar o.app (setRxSeq o.memory p o.app) := setRxSeqKeeps o.memory p o.app
  unfold requested
  dsimp only
  split
  · exact numbered
  split
  · exact numbered.trans (paramLoadKeeps b _ valid.jointIndex)
  split
  · exact numbered.trans (paramSaveKeeps b _ valid.jointIndex)
  · exact numbered

theorem preparedKeeps {o : Outside F} {p : Addr} {action : DeferredAction}
    (found : actionOf b.sonar (o.memory p) = some action) (valid : ValidPacket o.memory p action) :
    Keeps b.sonar o.app (prepared b action p o) := by
  cases action with
  | handleParamCtl => exact requestedKeeps valid
  | handlePacket args =>
    unfold prepared
    dsimp only
    cases taken : refused args o.memory p with
    | true => exact setRxSeqKeeps o.memory p o.app
    | false => exact handledKeeps (actionTyped found) valid taken

end Keeps

/-! The rest of the loop. -/

section Loop
variable {sonar : Bool} {b : Board F} {f mid later : State F}

/- Whoever writes neither to the globals nor to the EEPROM. -/
theorem keepsGlobals (globals : later.globals = f.globals) (eeprom : later.eeprom = f.eeprom)
    (results : later.sendResults = f.sendResults) : Keeps sonar f later := by
  have same : SameOutside (fun _ _ => False) f later := fun g a _ => by rw [globals]
  exact keepsOutside same (fun _ _ _ _ _ => id) (fun _ => id) eeprom results

theorem Keeps.globals (keeps : Keeps sonar f mid) (globals : later.globals = mid.globals) (eeprom : later.eeprom = mid.eeprom)
    (results : later.sendResults = mid.sendResults) : Keeps sonar f later := keeps.trans (keepsGlobals globals eeprom results)

/- The status of a joint behind its header. -/
def BehindStatus (g : Global) (a : Nat) : Prop := g = .jointStatus ∧ 2 ≤ a % 16

theorem statusOutside (same : SameOutside BehindStatus f later) (eeprom : later.eeprom = f.eeprom)
    (results : later.sendResults = f.sendResults) : Keeps sonar f later := by
  refine keepsOutside same ?_ (fun a here => nomatch here.1) eeprom results
  rintro g offset k packet low ⟨rfl, entry⟩
  cases packet with
  | jointStatus =>
    rw [jointStatusEntry] at entry
    omega
  | single sent => simp at sent

theorem statusWordKeeps (s : Nat) {k : Nat} (v : UInt16) (f : State F) (low : 2 ≤ k) (high : k < 15) :
    Keeps sonar f (setWord f .jointStatus (jointStatusAt s + k) v) := by
  refine statusOutside ((SameOutside.refl f).setWord v ⟨rfl, ?_⟩ ⟨rfl, ?_⟩) rfl rfl
  all_goals
    rw [jointStatusEntry]
    omega

theorem statusByteKeeps (s : Nat) {k : Nat} (c : UInt8) (f : State F) (low : 2 ≤ k) (high : k < 16) :
    Keeps sonar f (setByte f .jointStatus (jointStatusAt s + k) c) := by
  refine statusOutside ((SameOutside.refl f).setByte c ⟨rfl, ?_⟩) rfl rfl
  rw [jointStatusEntry]
  omega

/- What a tick stores of a joint's measures. -/
theorem measuredKeeps (s : Nat) (speed enc output : UInt16) (mode : UInt8) (f : State F) : Keeps sonar f
    (setWord (setByte (setWord (setWord f .jointStatus (jointStatusAt s + 7) speed) .jointStatus (jointStatusAt s + 5) enc)
      .jointStatus (jointStatusAt s + 15) mode) .jointStatus (jointStatusAt s + 11) output) := by
  refine .trans ?_ (statusWordKeeps s output _ (by decide) (by decide))
  refine .trans ?_ (statusByteKeeps s mode _ (by decide) (by decide))
  refine .trans ?_ (statusWordKeeps s enc _ (by decide) (by decide))
  exact statusWordKeeps s speed f (by decide) (by decide)

theorem jointControllerHandleKeeps (enc : UInt16) (i : Nat) (f : State F) : Keeps sonar f (jointControllerHandle enc i f) := by
  unfold jointControllerHandle
  dsimp only
  split
  · rename_i s c p _ _ _
    have measured : ∀ speed mode output, Keeps sonar f _ := fun speed mode output =>
      measuredKeeps s speed enc output mode f
    split
    · exact (measured _ _ _).globals rfl rfl rfl
    split
    · exact (measured _ _ _).globals rfl rfl rfl
    split
    · exact ((measured _ _ _).trans (statusWordKeeps s _ _ (by decide) (by decide))).globals rfl rfl rfl
    · exact measured _ _ _
  · exact keepsGlobals rfl rfl rfl

theorem BridgesOnly.keeps (only : BridgesOnly f later) : Keeps sonar f later :=
  keepsGlobals only.globals (by rw [only.same]) (by rw [only.same])

theorem foldKeeps {step : State F → Nat → State F} (one : ∀ f i, Keeps sonar f (step f i)) (is : List Nat) (f : State F) :
    Keeps sonar f (is.foldl step f) := by
  induction is generalizing f with
  | nil => exact .refl f
  | cons i rest ih => exact (one f i).trans (ih _)

theorem jointsHandleKeeps (b : Board F) (encoders : Nat → UInt16) (f : State F) : Keeps sonar f (jointsHandle b encoders f) :=
  (foldKeeps (fun f i => jointControllerHandleKeeps (encoders i) i f) _ f).trans
    (foldKeeps (fun f i => (hBridgeSetSpeedOnly i (f.jointControllers i).output f).keeps) _ _)

theorem driveControlKeeps (b : Board F) (f : State F) : Keeps sonar f (driveControl b f) := by
  have recognises : Keeps sonar f (recogniseCommand f) := by
    unfold recogniseCommand
    split
    · exact (byteKeeps 1 f (by decide) (by decide) (by decide)).globals rfl rfl rfl
    · exact .refl f
  have speed : ∀ control speed (f : State F), Keeps sonar f (setJointSpeed f control speed) := by
    intro control speed f
    cases control with
    | none => exact faultedKeeps f
    | some i => exact wordKeeps _ f (by omega) (by decide) (by decide)
  have mode : ∀ control mode (f : State F), Keeps sonar f (setJointMode f control mode) := by
    intro control mode f
    cases control with
    | none => exact faultedKeeps f
    | some i => exact byteKeeps _ f (by omega) (by decide) (by decide)
  unfold driveControl
  dsimp only
  split
  · refine recognises.trans ?_
    unfold driveControllerControl
    dsimp only
    refine .trans ?_ (mode _ _ _)
    refine .trans ?_ (mode _ _ _)
    exact (speed _ _ _).trans (speed _ _ _)
  · exact recognises

theorem sonarHandleKeeps (ranges : Nat → UInt16) (f : State F) : Keeps sonar f (sonarHandle ranges f) := by
  have begun : Keeps sonar f { f with sonarReady := false, sonarCurrentCycle := f.sonarCurrentCycle + 1 } :=
    keepsGlobals rfl rfl rfl
  have polled : ∀ (sonars : List Nat) (f : State F),
      Keeps sonar f (sonars.foldl (fun f s => setWord f .sonarStatus (4 + 2 * s) (ranges s)) f) :=
    foldKeeps fun f s => wordKeeps _ f (by omega) (by decide) (by decide)
  unfold sonarHandle
  dsimp only
  split
  · exact begun.globals rfl rfl rfl
  split
  · exact begun
  · generalize List.range sonarsNum = sonars
    refine .globals (begun.trans (polled sonars _)) rfl rfl rfl

theorem setIdleCyclesKeeps (v : UInt32) (f : State F) : Keeps sonar f (setIdleCycles v f) := by
  refine behindKeeps (g := .systemStatus) ((SameOutside.refl f).set fun a outside => ?_) (by decide) (by decide) rfl rfl
  exact store32Outside v fun inside => outside ⟨rfl, le_trans (by decide) inside.1⟩

theorem watchdogHandleKeeps (f : State F) : Keeps sonar f (watchdogHandle f) := by
  have set : ∀ v (f : State F), Keeps sonar f (setWatchdogCount f v) := fun v f => wordKeeps v f (by decide) (by decide) (by decide)
  have disable : ∀ i (f : State F), Keeps sonar f (disableJoint f i) := by
    intro i f
    unfold disableJoint
    cases (f.jointControllers i).control with
    | none => exact (faultedKeeps f).globals rfl rfl rfl
    | some c => exact (byteKeeps jointDisabled f (by omega) (by decide) (by decide)).globals rfl rfl rfl
  have down : Keeps sonar f (countDown f) := by
    unfold countDown
    split
    · exact set _ f
    · exact .refl f
  rw [watchdogHandleCounts]
  split
  · exact set _ f
  split
  · have off : Keeps sonar (countDown f) (setByte (countDown f) .driveStatus 40 0) :=
      byteKeeps 0 _ (by decide) (by decide) (by decide)
    exact down.trans (off.trans ((disable 0 _).trans (disable 1 _)))
  · exact down

end Loop

/- A relation that every step of the loop respects, apart from `Orazio_commHandle`. -/
structure LoopFrame (b : Board F) (R : Main F → Main F → Prop) : Prop where
  refl : ∀ s, R s s
  trans : ∀ s mid later, R s mid → R mid later → R s later
  flags : ∀ s tickCounter commHandle, R s { s with tickCounter := tickCounter, commHandle := commHandle }
  joints : ∀ s encoders, R s (s.update (jointsHandle b encoders))
  driven : ∀ s, R s (s.update (driveUpdate b))
  controlled : ∀ s, R s (s.update (driveControl b))
  sonars : ∀ s ranges, R s (s.update (sonarHandle ranges))
  reset : ∀ s, R s (s.update watchdogReset)
  watchdog : ∀ s, R s (s.update watchdogHandle)
  idle : ∀ s, R s (s.update countIdle)
  finished : ∀ s, R s (s.update (setIdleCycles 0))

section LoopFrame
variable {b : Board F} {R : Main F → Main F → Prop}

theorem LoopFrame.onTimerTick (frame : LoopFrame b R) (s : Main F) (encoders : Nat → UInt16) : R s (onTimerTick b s encoders) := by
  have handled := frame.joints s encoders
  unfold Firmware.onTimerTick
  dsimp only
  split
  · exact frame.trans _ _ _ handled (frame.flags _ _ _)
  · exact frame.trans _ _ _ handled (frame.flags _ _ (s.update (jointsHandle b encoders)).commHandle)

theorem LoopFrame.ticks (frame : LoopFrame b R) (turn : Turn) (point : Nat) (s : Main F) : R s (ticks b turn point s) := by
  unfold Firmware.ticks
  induction turn.ticks point generalizing s with
  | nil => exact frame.refl s
  | cons encoders rest ih => exact frame.trans _ _ _ (frame.onTimerTick s encoders) (ih _)

theorem LoopFrame.idleTurn (frame : LoopFrame b R) (s : Main F) (turn : Turn) : R s (idleTurn b s turn) :=
  frame.trans _ _ _ (frame.ticks turn 0 s) (frame.idle _)

theorem LoopFrame.driveCycle (frame : LoopFrame b R) (turn : Turn) (s : Main F) : R s (driveCycle b turn s) := by
  have updated := frame.trans _ _ _ (frame.ticks turn 1 s) (frame.driven _)
  exact frame.trans _ _ _ (frame.trans _ _ _ updated (frame.ticks turn 2 _)) (frame.controlled _)

theorem LoopFrame.beforeComm (frame : LoopFrame b R) (turn : Turn) (s : Main F) : R s (beforeComm b turn s) := by
  have ticked := frame.trans _ _ _ (frame.driveCycle turn s) (frame.ticks turn 3 _)
  unfold Firmware.beforeComm
  dsimp only
  refine frame.trans _ _ _ ?_ (frame.ticks turn 4 _)
  split
  · exact frame.trans _ _ _ ticked (frame.sonars _ _)
  · exact ticked

/- After `Orazio_commHandle`. -/
theorem LoopFrame.afterComm (frame : LoopFrame b R) (turn : Turn) (previous : UInt16) (s : Main F) :
    R { s with machine := (commHandle b turn.line s.machine).2 } (finishCycle b turn (communicate b turn previous s)) := by
  have finished : ∀ s : Main F, R s (finishCycle b turn s) := fun s =>
    frame.trans _ _ _ (frame.trans _ _ _ (frame.ticks turn 7 s) (frame.flags _ _ false)) (frame.finished _)
  have five := frame.ticks turn 5 { s with machine := (commHandle b turn.line s.machine).2 }
  refine frame.trans _ _ _ ?_ (finished _)
  unfold communicate
  dsimp only
  refine frame.trans _ _ _ ?_ (frame.watchdog _)
  refine frame.trans _ _ _ ?_ (frame.ticks turn 6 _)
  split
  · exact frame.trans _ _ _ five (frame.reset _)
  · exact five

end LoopFrame

/- Steps of the loop that send nothing. -/
structure Unsent (sonar : Bool) (s later : Main F) : Prop where
  handler : later.machine.outside.baseHandler = s.machine.outside.baseHandler
  app : Keeps sonar s.app later.app

section Unsent
variable {sonar : Bool} {b : Board F} {turn : Turn} {s mid later : Main F}

theorem Unsent.refl (s : Main F) : Unsent sonar s s := ⟨rfl, .refl _⟩

theorem Unsent.trans (first : Unsent sonar s mid) (second : Unsent sonar mid later) : Unsent sonar s later :=
  ⟨second.handler.trans first.handler, first.app.trans second.app⟩

theorem updateUnsent {change : State F → State F} (keeps : Keeps sonar s.app (change s.app)) : Unsent sonar s (s.update change) :=
  ⟨rfl, keeps⟩

theorem unsentFrame (b : Board F) : LoopFrame b (Unsent sonar) where
  refl := .refl
  trans _ _ _ := .trans
  flags s _ _ := ⟨rfl, .refl s.app⟩
  joints s encoders := updateUnsent (jointsHandleKeeps b encoders s.app)
  driven s := updateUnsent (driveUpdateOnly b s.app).keeps
  controlled s := updateUnsent (driveControlKeeps b s.app)
  sonars s ranges := updateUnsent (sonarHandleKeeps ranges s.app)
  reset s := updateUnsent (wordKeeps _ s.app (by decide) (by decide) (by decide))
  watchdog s := updateUnsent (watchdogHandleKeeps s.app)
  idle s := updateUnsent (setIdleCyclesKeeps _ s.app)
  finished s := updateUnsent (setIdleCyclesKeeps 0 s.app)

theorem idleTurnUnsent (b : Board F) (s : Main F) (turn : Turn) : Unsent sonar s (idleTurn b s turn) :=
  (unsentFrame b).idleTurn s turn

theorem beforeCommUnsent (b : Board F) (turn : Turn) (s : Main F) : Unsent sonar s (beforeComm b turn s) :=
  (unsentFrame b).beforeComm turn s

theorem watchedUnsent (b : Board F) (turn : Turn) (previous : UInt16) (s : Main F) :
    Unsent sonar { s with machine := (commHandle b turn.line s.machine).2 }
      (finishCycle b turn (communicate b turn previous s)) :=
  (unsentFrame b).afterComm turn previous s

end Unsent

/-! Booting: parameters of another protocol version are saved anew, others are loaded as they are. -/

section Boot
variable {sonar : Bool} {b : Board F} {f : State F} {k : Nat}

theorem powerOnMarked (b : Board F) (eeprom : Memory) (low : k < 2) : MarkedGlobals k (powerOn b eeprom) := by
  intro g offset packet
  cases packet with
  | joint inside | jointStatus inside =>
    rename_i i
    obtain rfl | rfl : i = 0 ∨ i = 1 := by
      rw [numJoints] at inside
      omega
    · obtain rfl | rfl : k = 0 ∨ k = 1 := by omega
      · rfl
      · rfl
    · obtain rfl | rfl : k = 0 ∨ k = 1 := by omega
      · rfl
      · rfl
  | single =>
    obtain rfl | rfl : k = 0 ∨ k = 1 := by omega
    · cases g <;> rfl
    · cases g <;> rfl

/- Everything is saved by the five writes. -/
theorem eachParamSaves (b : Board F) (low : k < 2) (globals : MarkedGlobals k f) :
    Marked b.sonar k (eachParam b (fun paramType index f => (paramSave b paramType index f).2) f) := by
  have start : Saving b.sonar k (fun _ => False) f := ⟨globals, fun _ _ _ _ none => none.elim⟩
  obtain ⟨g, same, saved⟩ : ∃ g, eachParam b (fun paramType index f => (paramSave b paramType index f).2) f =
      (if b.sonar then (paramSave b paramSonar (-1) g).2 else g) ∧
        Saving b.sonar k (fun slot => (((False ∨ slot = systemParamOffset) ∨ slot = jointSlot (0 : Nat)) ∨
          slot = jointSlot (1 : Nat)) ∨ slot = driveParamOffset) g :=
    ⟨_, rfl, (((start.write low .system).write low (.joint (by decide))).write low (.joint (by decide))).write low .drive⟩
  have others : ∀ slot h offset, SlotAt b.sonar slot h offset → (((False ∨ slot = systemParamOffset) ∨
      slot = jointSlot (0 : Nat)) ∨ slot = jointSlot (1 : Nat)) ∨ slot = driveParamOffset ∨ b.sonar = true ∧ slot = sonarParamOffset := by
    intro slot h offset at_
    cases at_ with
    | system => simp
    | drive => simp
    | sonar used => simp [used]
    | joint inside =>
      rename_i i
      obtain rfl | rfl : i = 0 ∨ i = 1 := by
        rw [numJoints] at inside
        omega
      · simp
      · simp
  rw [same]
  cases compiled : b.sonar with
  | false =>
    rw [compiled] at saved others
    exact ⟨saved.globals, fun slot h offset at_ => saved.slots slot h offset at_ (by simpa using others slot h offset at_)⟩
  | true =>
    have write : (paramSave b paramSonar (-1) g).2 = eepromWrite g sonarParamOffset .sonarParams 0 Global.sonarParams.size.toNat := by
      rw [paramSave, if_neg (by decide), if_neg (by decide), if_neg (by decide), if_pos ⟨rfl, compiled⟩]
      rfl
    rw [compiled] at saved others
    have all := saved.write low (.sonar rfl)
    rw [if_pos rfl, write]
    refine ⟨all.globals, fun slot h offset at_ => all.slots slot h offset at_ ?_⟩
    simpa [or_assoc] using others slot h offset at_

theorem eachParamLoads (b : Board F) (f : State F) :
    Keeps b.sonar f (eachParam b (fun paramType index f => (paramLoad b paramType index f).2) f) := by
  have load : ∀ {paramType : UInt8} {index : Int} (f : State F), (paramType = paramJointsSingle → JointIndex index) →
      Keeps b.sonar f (paramLoad b paramType index f).2 := fun f valid => paramLoadKeeps b f valid
  have joints : ∀ f : State F, Keeps b.sonar f
      ((List.range numJoints).foldl (fun f i => (paramLoad b paramJointsSingle (i : Nat) f).2) f) := fun f =>
    (load f fun _ => by decide).trans (load _ fun _ => by decide)
  unfold eachParam
  dsimp only
  split
  · refine .trans ?_ (load _ fun sonar => absurd sonar (by decide))
    refine .trans ?_ (load _ fun drive => absurd drive (by decide))
    exact (load f fun system => absurd system (by decide)).trans (joints _)
  · refine .trans ?_ (load _ fun drive => absurd drive (by decide))
    exact (load f fun system => absurd system (by decide)).trans (joints _)

theorem paramInitMarked (b : Board F) (low : k < 2) (globals : MarkedGlobals k f)
    (slots : load32 f.eeprom protocolVersionOffset = load32 (f.globals .systemParams) 4 → MarkedSlots b.sonar k f.eeprom) :
    Marked b.sonar k (paramInit b f) := by
  have versions : ∀ (f : State F) v w, Marked b.sonar k f →
      Marked b.sonar k (f.set .systemParams (store32 (store32 (f.globals .systemParams) 4 v) 8 w)) := by
    intro f v w marked
    refine marked.behind low (g := .systemParams) ((SameOutside.refl f).set fun a outside => ?_) (by decide) rfl
    have below : ∀ at_, 2 ≤ at_ → ¬ Inside at_ 4 a := fun at_ low inside => outside ⟨rfl, le_trans low inside.1⟩
    exact (store32Outside w (below 8 (by decide))).trans (store32Outside v (below 4 (by decide)))
  have loads : ∀ f : State F, Marked b.sonar k f →
      Marked b.sonar k (eachParam b (fun paramType index f => (paramLoad b paramType index f).2) f) := fun f =>
    (eachParamLoads b f).marked k low
  unfold paramInit
  refine versions _ _ _ (loads _ ?_)
  split
  · exact eachParamSaves b low globals
  · rename_i same
    exact ⟨globals, slots (not_not.mp same)⟩

theorem installPacketRing {P σ : Type} (ops : P → PacketOperations σ) (h : PacketHandler P) (p : P) :
    (PacketHandler.installPacket ops h p).2.tx = h.tx := by
  unfold PacketHandler.installPacket
  dsimp only
  split
  · split <;> rfl
  · rfl

theorem installAllOutside (installs : List (DeferredPacketHandler.Install DeferredAction)) (m : Machine F) :
    (DeferredPacketHandler.installAll m installs).outside.app = m.outside.app ∧
      (DeferredPacketHandler.installAll m installs).outside.baseHandler.tx = m.outside.baseHandler.tx := by
  induction installs generalizing m with
  | nil => exact ⟨rfl, rfl⟩
  | cons i rest ih =>
    obtain ⟨app, ring⟩ := ih (DeferredPacketHandler.installPacket m i.type i.size i.buffer i.numBuffers i.action).2
    refine ⟨app.trans ?_, ring.trans ?_⟩
    · unfold DeferredPacketHandler.installPacket
      split <;> rfl
    · unfold DeferredPacketHandler.installPacket
      split
      · rfl
      · exact installPacketRing _ _ _

theorem powerOnVersion (b : Board F) (eeprom : Memory) :
    load32 ((powerOn b eeprom).globals .systemParams) 4 = orazioProtocolVersion := by
  obtain ⟨zero, one, two, three⟩ : (powerOn b eeprom).globals .systemParams 4 = 0x15 ∧
      (powerOn b eeprom).globals .systemParams 5 = 0x09 ∧ (powerOn b eeprom).globals .systemParams 6 = 0x18 ∧
      (powerOn b eeprom).globals .systemParams 7 = 0x20 := ⟨rfl, rfl, rfl, rfl⟩
  unfold load32 load16
  rw [zero, one, two, three]
  decide

theorem bootMarked {buffers : PacketBuffers} {base : PacketHandler PacketType} {memory eeprom : Memory} (low : k < 2)
    (slots : load32 eeprom protocolVersionOffset = orazioProtocolVersion → MarkedSlots b.sonar k eeprom) :
    Marked b.sonar k (boot b buffers base memory eeprom).app ∧
      (boot b buffers base memory eeprom).machine.outside.baseHandler.tx = ⟨0, 0, 0⟩ := by
  have params := paramInitMarked b low (powerOnMarked b eeprom low) fun same => slots (same.trans (powerOnVersion b eeprom))
  have joints := (jointsInitEnds b (paramInit b (powerOn b eeprom))).only.keeps.marked k low params
  have drive := (driveInitOnly b _).keeps.marked k low joints
  unfold boot
  generalize (driveInit b (jointsInit b (paramInit b (powerOn b eeprom))).2).2 = f at drive
  dsimp only
  have sonars : Marked b.sonar k (if b.sonar then (sonarInit f).2 else f) := by
    split
    · exact (sonarInitKeeps f).marked k low drive
    · exact drive
  generalize (if b.sonar then (sonarInit f).2 else f) = g at sonars
  obtain ⟨app, ring⟩ := installAllOutside (packets b.sonar buffers)
    (DeferredPacketHandler.initializeHandler ⟨base, memory, { g with globalSeq := 0 }⟩)
  have started : Marked b.sonar k (commInit b.sonar buffers ⟨base, memory, { g with globalSeq := 0 }⟩).outside.app := by
    have same : (commInit b.sonar buffers ⟨base, memory, { g with globalSeq := 0 }⟩).outside.app = { g with globalSeq := 0 } := app
    rw [same]
    exact ⟨sonars.globals, sonars.eeprom⟩
  refine ⟨?_, ring⟩
  generalize commInit b.sonar buffers ⟨base, memory, { g with globalSeq := 0 }⟩ = m at started
  have counted : Marked b.sonar k (setWatchdogCount m.outside.app (watchdogCycles m.outside.app)) :=
    (wordKeeps _ m.outside.app (by decide) (by decide) (by decide)).marked k low started
  refine counted.behind low (g := .stringMessage) ((SameOutside.refl _).set fun a outside => ?_) (by decide) rfl
  have below : a < 2 := by
    by_contra high
    exact outside ⟨rfl, not_lt.mp high⟩
  have text : a < 4 := below.trans (by decide)
  exact (storeOther _ (below.trans (by decide)).ne).trans ((storeOther _ below.ne).trans (copyBytesOutside (Or.inl text)))

end Boot

end OrazioLogger.Firmware
