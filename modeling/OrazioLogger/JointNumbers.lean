import OrazioLogger.BatchAnswers

/-! The numbers of the joints: the packets in the tables of the firmware, and those kept in the EEPROM, carry the number of
their entry, whatever the host sends and however the main loop runs. -/
namespace OrazioLogger.Firmware
open ByteMemory Countdown OrazioPackets OrazioComm DeferredPacketHandler
open OrazioClient (load32 store32)

variable {F : Type}

def IndexedSlots (eeprom : Memory) : Prop := ∀ i < numJoints, eeprom (jointSlot i + 4) = UInt8.ofNat i

structure IndexedGlobals (f : State F) : Prop where
  statuses : ∀ i < numJoints, f.globals .jointStatus (jointStatusAt i + 4) = UInt8.ofNat i
  params : ∀ i < numJoints, f.globals .jointParams (jointParam i + 4) = UInt8.ofNat i

structure Indexed (f : State F) : Prop where
  globals : IndexedGlobals f
  slots : IndexedSlots f.eeprom

/-! Between two epochs. -/

structure Steady (f later : State F) : Prop where
  epoch : later.globalSeq = f.globalSeq
  indexed : Indexed f → Indexed later

section Steady
variable {touched : Global → Nat → Prop} {b : Board F} {f mid later : State F}

theorem Steady.refl (f : State F) : Steady f f := ⟨rfl, id⟩

theorem Steady.trans (first : Steady f mid) (second : Steady mid later) : Steady f later :=
  ⟨second.epoch.trans first.epoch, fun indexed => second.indexed (first.indexed indexed)⟩

theorem steadySame (globals : later.globals = f.globals) (eeprom : later.eeprom = f.eeprom)
    (epoch : later.globalSeq = f.globalSeq) : Steady f later := by
  refine ⟨epoch, fun indexed => ⟨⟨?_, ?_⟩, ?_⟩⟩
  · rw [globals]
    exact indexed.globals.statuses
  · rw [globals]
    exact indexed.globals.params
  · rw [eeprom]
    exact indexed.slots

theorem IndexedGlobals.outside (indexed : IndexedGlobals f) (same : SameOutside touched f later)
    (statuses : ∀ i, ¬ touched .jointStatus (jointStatusAt i + 4)) (params : ∀ i, ¬ touched .jointParams (jointParam i + 4)) :
    IndexedGlobals later :=
  ⟨fun i inside => (same _ _ (statuses i)).trans (indexed.statuses i inside),
    fun i inside => (same _ _ (params i)).trans (indexed.params i inside)⟩

theorem steadyOutside (same : SameOutside touched f later) (statuses : ∀ i, ¬ touched .jointStatus (jointStatusAt i + 4))
    (params : ∀ i, ¬ touched .jointParams (jointParam i + 4)) (eeprom : later.eeprom = f.eeprom)
    (epoch : later.globalSeq = f.globalSeq) : Steady f later := by
  refine ⟨epoch, fun indexed => ⟨indexed.globals.outside same statuses params, ?_⟩⟩
  rw [eeprom]
  exact indexed.slots

theorem setSteady {g : Global} (m : Memory) (f : State F) (other : g ∉ [.jointParams, .jointStatus]) : Steady f (f.set g m) := by
  have apart : ∀ table ∈ [Global.jointParams, .jointStatus], ¬ table = g := fun table member same => other (same ▸ member)
  have same : SameOutside (fun h _ => h = g) f (f.set g m) := (SameOutside.refl f).set fun a outside => absurd rfl outside
  exact steadyOutside same (fun _ => apart _ (by decide)) (fun _ => apart _ (by decide)) rfl rfl

theorem faultedSteady (f : State F) : Steady f f.faulted := steadySame rfl rfl rfl

theorem JointsOnly.steady (only : JointsOnly f later) : Steady f later := by
  refine steadyOutside only.globals (fun i written => nomatch written.1) (fun i written => ?_) (by rw [only.same])
    (by rw [only.same])
  obtain ⟨-, j, -, k, small, place⟩ := written
  simp only [pinAt, jointParamEntry] at place
  omega

theorem DriveOnly.steady (only : DriveOnly f later) : Steady f later :=
  steadyOutside only.globals (fun _ written => nomatch written.1) (fun _ written => nomatch written.1) (by rw [only.same])
    (by rw [only.same])

theorem BridgesOnly.steady (only : BridgesOnly f later) : Steady f later :=
  steadySame only.globals (by rw [only.same]) (by rw [only.same])

theorem SendsOnly.steady {o later : Outside F} (only : SendsOnly o later) : Steady o.app later.app := by
  refine steadyOutside only.globals (fun i stamped => ?_) (fun i stamped => ?_) (by rw [only.same]) (by rw [only.same])
  · simp only [Stamped, jointStatusEntry] at stamped
    omega
  · simp only [Stamped, jointParamEntry] at stamped
    omega

theorem ReceptionOnly.indexed {m later : Machine F} (only : ReceptionOnly m later) (indexed : Indexed m.outside.app) :
    Indexed later.outside.app := by
  refine ⟨indexed.globals.outside only.globals (fun _ written => nomatch written.1) (fun _ written => nomatch written.1), ?_⟩
  rw [only.same]
  exact indexed.slots

/-! The main loop, but for the communication. -/

/- The status of a joint behind its number. -/
def Measured (g : Global) (a : Nat) : Prop := g = .jointStatus ∧ 5 ≤ a % 16

theorem statusSteady (same : SameOutside Measured f later) (eeprom : later.eeprom = f.eeprom)
    (epoch : later.globalSeq = f.globalSeq) : Steady f later := by
  refine steadyOutside same (fun i written => ?_) (fun _ written => nomatch written.1) eeprom epoch
  have place := written.2
  rw [jointStatusEntry] at place
  omega

theorem statusWordSteady (s : Nat) {k : Nat} (v : UInt16) (f : State F) (low : 5 ≤ k) (high : k < 15) :
    Steady f (setWord f .jointStatus (jointStatusAt s + k) v) := by
  refine statusSteady ((SameOutside.refl f).setWord v ⟨rfl, ?_⟩ ⟨rfl, ?_⟩) rfl rfl
  all_goals
    rw [jointStatusEntry]
    omega

theorem statusByteSteady (s : Nat) {k : Nat} (c : UInt8) (f : State F) (low : 5 ≤ k) (high : k < 16) :
    Steady f (setByte f .jointStatus (jointStatusAt s + k) c) := by
  refine statusSteady ((SameOutside.refl f).setByte c ⟨rfl, ?_⟩) rfl rfl
  rw [jointStatusEntry]
  omega

theorem measuredSteady (s : Nat) (speed enc output : UInt16) (mode : UInt8) (f : State F) : Steady f
    (setWord (setByte (setWord (setWord f .jointStatus (jointStatusAt s + 7) speed) .jointStatus (jointStatusAt s + 5) enc)
      .jointStatus (jointStatusAt s + 15) mode) .jointStatus (jointStatusAt s + 11) output) := by
  refine .trans ?_ (statusWordSteady s output _ (by decide) (by decide))
  refine .trans ?_ (statusByteSteady s mode _ (by decide) (by decide))
  refine .trans ?_ (statusWordSteady s enc _ (by decide) (by decide))
  exact statusWordSteady s speed f (by decide) (by decide)

theorem setControllerSteady (f : State F) (i : Nat) (c : JointController) : Steady f (setController f i c) :=
  steadySame rfl rfl rfl

theorem jointControllerHandleSteady (enc : UInt16) (i : Nat) (f : State F) : Steady f (jointControllerHandle enc i f) := by
  unfold jointControllerHandle
  dsimp only
  split
  · rename_i s c p _ _ _
    have measured : ∀ speed mode output, Steady f _ := fun speed mode output => measuredSteady s speed enc output mode f
    split
    · exact (measured _ _ _).trans (setControllerSteady _ _ _)
    split
    · exact (measured _ _ _).trans (setControllerSteady _ _ _)
    split
    · exact ((measured _ _ _).trans (statusWordSteady s _ _ (by decide) (by decide))).trans (setControllerSteady _ _ _)
    · exact measured _ _ _
  · exact faultedSteady f

theorem foldSteady {step : State F → Nat → State F} (one : ∀ f i, Steady f (step f i)) (is : List Nat) (f : State F) :
    Steady f (is.foldl step f) := by
  induction is generalizing f with
  | nil => exact .refl f
  | cons i rest ih => exact (one f i).trans (ih _)

theorem jointsHandleSteady (b : Board F) (encoders : Nat → UInt16) (f : State F) : Steady f (jointsHandle b encoders f) :=
  (foldSteady (fun f i => jointControllerHandleSteady (encoders i) i f) _ f).trans
    (foldSteady (fun f i => (hBridgeSetSpeedOnly i (f.jointControllers i).output f).steady) _ _)

theorem driveControlSteady (b : Board F) (f : State F) : Steady f (driveControl b f) := by
  have recognises : Steady f (recogniseCommand f) := by
    unfold recogniseCommand
    split
    · have flagged : Steady f (setByte f .driveStatus 40 1) := setSteady _ f (by decide)
      exact flagged.trans (steadySame rfl rfl rfl)
    · exact .refl f
  have speed : ∀ control speed (f : State F), Steady f (setJointSpeed f control speed) := by
    intro control speed f
    cases control with
    | none => exact faultedSteady f
    | some i => exact setSteady _ f (by decide)
  have mode : ∀ control mode (f : State F), Steady f (setJointMode f control mode) := by
    intro control mode f
    cases control with
    | none => exact faultedSteady f
    | some i => exact setSteady _ f (by decide)
  unfold driveControl
  dsimp only
  split
  · refine recognises.trans ?_
    unfold driveControllerControl
    dsimp only
    exact ((speed _ _ _).trans (speed _ _ _)).trans ((mode _ _ _).trans (mode _ _ _))
  · exact recognises

theorem sonarHandleSteady (ranges : Nat → UInt16) (f : State F) : Steady f (sonarHandle ranges f) := by
  have begun : Steady f { f with sonarReady := false, sonarCurrentCycle := f.sonarCurrentCycle + 1 } := steadySame rfl rfl rfl
  have polled : ∀ (sonars : List Nat) (f : State F),
      Steady f (sonars.foldl (fun f s => setWord f .sonarStatus (4 + 2 * s) (ranges s)) f) :=
    foldSteady fun f _ => setSteady _ f (by decide)
  unfold sonarHandle
  dsimp only
  split
  · exact begun.trans (steadySame rfl rfl rfl)
  split
  · exact begun
  · generalize List.range sonarsNum = sonars
    exact (begun.trans (polled sonars _)).trans (steadySame rfl rfl rfl)

theorem watchdogHandleSteady (f : State F) : Steady f (watchdogHandle f) := by
  have disable : ∀ i (f : State F), Steady f (disableJoint f i) := by
    intro i f
    unfold disableJoint
    dsimp only
    refine .trans ?_ (setControllerSteady _ _ _)
    cases (f.jointControllers i).control with
    | none => exact faultedSteady f
    | some c => exact setSteady _ f (by decide)
  have down : Steady f (countDown f) := by
    unfold countDown
    split
    · exact setSteady _ f (by decide)
    · exact .refl f
  rw [watchdogHandleCounts]
  split
  · exact setSteady _ f (by decide)
  split
  · exact down.trans ((setSteady _ _ (by decide)).trans ((disable 0 _).trans (disable 1 _)))
  · exact down

theorem steadyFrame (b : Board F) : LoopFrame b fun s later => Steady s.app later.app where
  refl s := .refl s.app
  trans _ _ _ := .trans
  flags s _ _ := .refl s.app
  joints s encoders := jointsHandleSteady b encoders s.app
  driven s := (driveUpdateOnly b s.app).steady
  controlled s := driveControlSteady b s.app
  sonars s ranges := sonarHandleSteady ranges s.app
  reset s := setSteady _ s.app (by decide)
  watchdog s := watchdogHandleSteady s.app
  idle s := setSteady _ s.app (by decide)
  finished s := setSteady _ s.app (by decide)

/-! The handlers. -/

/- A packet copied into the table of parameters brings its number along. -/
theorem paramsCopied {i : Nat} (source : Memory) (src : Nat) (f : State F) (inside : i < numJoints)
    (number : source (src + 4) = UInt8.ofNat i) :
    Steady f (f.set .jointParams (copyBytes (f.globals .jointParams) (jointParam i) source src 25)) := by
  refine ⟨rfl, fun indexed => ⟨⟨fun j below => ?_, fun j below => ?_⟩, indexed.slots⟩⟩
  · rw [setOther _ _ _ (by decide)]
    exact indexed.globals.statuses j below
  · rw [setSame]
    by_cases same : j = i
    · subst same
      exact (copyBytesInside (by decide)).trans number
    · refine (copyBytesOutside ?_).trans (indexed.globals.params j below)
      simp only [jointParamEntry]
      omega

theorem postCopySteady (b : Board F) (args : PacketHandlerArgs) (f : State F) : Steady f (postCopy b args f).2 := by
  cases args with
  | driveControl | jointControl => exact .refl f
  | systemParam | driveParam => exact (driveInitOnly b f).steady
  | sonarParam => exact steadySame rfl rfl rfl
  | jointParam => exact (jointsInitEnds b f).only.steady

theorem copyPacketSteady {args : PacketHandlerArgs} {memory : Memory} {p : Addr} (f : State F)
    (valid : ValidPacket memory p (.handlePacket args)) (taken : refused args memory p = false) :
    Steady f (copyPacket args (copyOffset args memory p) memory p f) := by
  obtain ⟨offset, place, inside, -⟩ := valid.copyOffset taken
  rw [place, copyPacketInside valid.1 inside]
  cases args with
  | systemParam | driveControl | driveParam | sonarParam | jointControl => exact setSteady _ f (by decide)
  | jointParam =>
    obtain ⟨i, joint, same⟩ := valid.indexed rfl taken
    have size : memory (p + 1) = 25 := valid.1
    have entry : offset = jointParam i := by
      have product : copyOffset .jointParam memory p = i * 25 := by
        simp only [copyOffset, maxIndex, same, size]
        rfl
      rw [product] at place
      rw [jointParamEntry]
      omega
    have number : memory (p + 4) = UInt8.ofNat i := by
      have signed : signed8 (memory (p + 4)) = i := same
      have byte := (memory (p + 4)).toNat_lt
      rw [numJoints] at joint
      unfold signed8 at signed
      apply UInt8.toNat_inj.mp
      rw [UInt8.toNat_ofNat']
      split at signed <;> omega
    subst entry
    exact paramsCopied memory p f joint number

theorem handledSteady {args : PacketHandlerArgs} {o : Outside F} {p : Addr} (valid : ValidPacket o.memory p (.handlePacket args))
    (taken : refused args o.memory p = false) : Steady o.app (handled b args p o).2 := by
  have numbered : Steady o.app (setRxSeq o.memory p o.app) := setSteady _ _ (by decide)
  unfold handled
  refine .trans ?_ (postCopySteady b args _)
  refine .trans ?_ (copyPacketSteady _ valid taken)
  split
  · exact numbered.trans (setSteady _ _ (by decide))
  · exact numbered

theorem paramSetSteady (b : Board F) (paramType : UInt8) (f : State F) : Steady f (paramSet b paramType f).2 := by
  unfold paramSet
  split
  · exact (driveInitOnly b f).steady
  split
  · exact (jointsInitEnds b f).only.steady
  split
  · exact (driveInitOnly b f).steady
  split
  · exact steadySame rfl rfl rfl
  · exact .refl f

theorem checkIndexSteady (index : Int) (f : State F) : Steady f (checkIndex f index) := by
  unfold checkIndex
  split
  · exact .refl f
  · exact faultedSteady f

theorem jointReadSteady {index : Int} (f : State F) (joint : JointIndex index) :
    Steady f (eepromRead f .jointParams (jointParam index.toNat) (jointSlot index) 25) := by
  have whole : (index.toNat : Int) = index := Int.toNat_of_nonneg joint.1
  have inside : index.toNat < numJoints := by
    have below := joint.2
    omega
  refine ⟨rfl, fun indexed => ?_⟩
  have number := indexed.slots index.toNat inside
  rw [whole] at number
  exact (paramsCopied f.eeprom (jointSlot index) f inside number).indexed indexed

theorem paramLoadSteady (b : Board F) {paramType : UInt8} {index : Int} (f : State F)
    (valid : paramType = paramJointsSingle → JointIndex index) : Steady f (paramLoad b paramType index f).2 := by
  unfold paramLoad
  split
  · exact (setSteady _ f (by decide)).trans (paramSetSteady b _ _)
  split
  · rename_i joints
    dsimp only
    rw [if_pos (valid joints).1]
    refine .trans ?_ (paramSetSteady b _ _)
    exact (checkIndexSteady index f).trans (jointReadSteady _ (valid joints))
  split
  · exact (setSteady _ f (by decide)).trans (paramSetSteady b _ _)
  split
  · exact (setSteady _ f (by decide)).trans (paramSetSteady b _ _)
  · exact .refl f

/- A save puts the number into the slot of the joint, if it is that slot. -/
theorem slotWritten {sonar : Bool} {slot offset i : Nat} {g : Global} (indexed : IndexedGlobals f)
    (at_ : SlotAt sonar slot g offset) (inside : i < numJoints)
    (before : slot ≠ jointSlot i → f.eeprom (jointSlot i + 4) = UInt8.ofNat i) :
    (eepromWrite f slot g offset g.size.toNat).eeprom (jointSlot i + 4) = UInt8.ofNat i := by
  change copyBytes f.eeprom slot (f.globals g) offset g.size.toNat (jointSlot i + 4) = _
  rw [jointSlotEntry inside] at before ⊢
  have untouched : slot + g.size.toNat ≤ 114 → slot ≠ 114 + 25 * i →
      copyBytes f.eeprom slot (f.globals g) offset g.size.toNat (114 + 25 * i + 4) = UInt8.ofNat i := fun below other =>
    (copyBytesOutside (Or.inr (by omega))).trans (before other)
  cases at_ with
  | system | drive | sonar =>
    refine untouched (by decide) fun same => ?_
    have low : systemParamOffset < 114 ∧ driveParamOffset < 114 ∧ sonarParamOffset < 114 := by decide
    omega
  | joint here =>
    rename_i j
    have size : Global.jointParams.size.toNat = 25 := rfl
    rw [jointSlotEntry here] at before ⊢
    rw [size]
    by_cases same : j = i
    · subst same
      exact (copyBytesInside (by decide)).trans (indexed.params j here)
    · exact (copyBytesOutside (by omega)).trans (before (by omega))

theorem eepromWriteSteady {sonar : Bool} {slot offset : Nat} {g : Global} (at_ : SlotAt sonar slot g offset) (f : State F) :
    Steady f (eepromWrite f slot g offset g.size.toNat) :=
  ⟨rfl, fun indexed => ⟨⟨indexed.globals.statuses, indexed.globals.params⟩, fun i inside =>
    slotWritten indexed.globals at_ inside fun _ => indexed.slots i inside⟩⟩

theorem paramSaveSteady (b : Board F) {paramType : UInt8} {index : Int} (f : State F)
    (valid : paramType = paramJointsSingle → JointIndex index) : Steady f (paramSave b paramType index f).2 := by
  unfold paramSave
  split
  · exact eepromWriteSteady (SlotAt.system : SlotAt b.sonar _ _ _) f
  split
  · rename_i joints
    have slot : SlotAt b.sonar _ _ _ := jointSlotAt (valid joints)
    exact (checkIndexSteady index f).trans (eepromWriteSteady slot _)
  split
  · exact eepromWriteSteady (SlotAt.drive : SlotAt b.sonar _ _ _) f
  split
  · rename_i compiled
    exact eepromWriteSteady (.sonar compiled.2) f
  · exact .refl f

theorem requestedSteady {o : Outside F} {p : Addr} (valid : ValidPacket o.memory p .handleParamCtl) :
    Steady o.app (requested b p o).2 := by
  have numbered : Steady o.app (setRxSeq o.memory p o.app) := setSteady _ _ (by decide)
  unfold requested
  dsimp only
  split
  · exact numbered
  split
  · exact numbered.trans (paramLoadSteady b _ valid.jointIndex)
  split
  · exact numbered.trans (paramSaveSteady b _ valid.jointIndex)
  · exact numbered

theorem preparedSteady {o : Outside F} {p : Addr} {action : DeferredAction} (valid : ValidPacket o.memory p action) :
    Steady o.app (prepared b action p o) := by
  cases action with
  | handleParamCtl => exact requestedSteady valid
  | handlePacket args =>
    unfold prepared
    dsimp only
    cases taken : refused args o.memory p with
    | true => exact setSteady _ _ (by decide)
    | false => exact handledSteady valid taken

end Steady

/-! Booting. -/

section Boot
variable {b : Board F} {f : State F}

theorem powerOnIndexed (b : Board F) (eeprom : Memory) : IndexedGlobals (powerOn b eeprom) := by
  refine ⟨fun i inside => ?_, fun i inside => ?_⟩
  all_goals
    obtain rfl | rfl : i = 0 ∨ i = 1 := by
      rw [numJoints] at inside
      omega
    · rfl
    · rfl

/- The five writes save both joints. -/
theorem savesIndexed (b : Board F) (globals : IndexedGlobals f) :
    Indexed (eachParam b (fun paramType index f => (paramSave b paramType index f).2) f) := by
  let saved (first : State F) : State F := eepromWrite (eepromWrite first (jointSlot (0 : Nat)) .jointParams (jointParam 0) 25)
    (jointSlot (1 : Nat)) .jointParams (jointParam 1) 25
  obtain ⟨first, same, began⟩ : ∃ first : State F, eachParam b (fun paramType index f => (paramSave b paramType index f).2) f =
      (if b.sonar then (paramSave b paramSonar (-1) (eepromWrite (saved first) driveParamOffset .driveParams 0 38)).2
        else eepromWrite (saved first) driveParamOffset .driveParams 0 38) ∧ IndexedGlobals first :=
    ⟨eepromWrite f systemParamOffset .systemParams 0 24, rfl, ⟨globals.statuses, globals.params⟩⟩
  have joints : Indexed (saved first) := by
    refine ⟨⟨began.statuses, began.params⟩, fun i inside => ?_⟩
    have firstSlot : SlotAt b.sonar (jointSlot (0 : Nat)) .jointParams (jointParam 0) := .joint (by decide)
    have secondSlot : SlotAt b.sonar (jointSlot (1 : Nat)) .jointParams (jointParam 1) := .joint (by decide)
    refine slotWritten (f := eepromWrite first (jointSlot (0 : Nat)) .jointParams (jointParam 0) 25)
      ⟨began.statuses, began.params⟩ secondSlot inside fun other => ?_
    obtain rfl : i = 0 := by
      rw [numJoints] at inside
      by_contra above
      have one : i = 1 := by omega
      exact other (by rw [one])
    exact slotWritten began firstSlot inside fun apart => absurd rfl apart
  have drive : Indexed (eepromWrite (saved first) driveParamOffset .driveParams 0 38) :=
    (eepromWriteSteady (SlotAt.drive : SlotAt b.sonar _ _ _) (saved first)).indexed joints
  rw [same]
  split
  · exact (paramSaveSteady b _ fun sonar => absurd sonar (by decide)).indexed drive
  · exact drive

theorem loadsSteady (b : Board F) (f : State F) :
    Steady f (eachParam b (fun paramType index f => (paramLoad b paramType index f).2) f) := by
  have load : ∀ {paramType : UInt8} {index : Int} (f : State F), (paramType = paramJointsSingle → JointIndex index) →
      Steady f (paramLoad b paramType index f).2 := fun f valid => paramLoadSteady b f valid
  have joints : ∀ f : State F, Steady f
      ((List.range numJoints).foldl (fun f i => (paramLoad b paramJointsSingle (i : Nat) f).2) f) := fun f =>
    (load f fun _ => by decide).trans (load _ fun _ => by decide)
  unfold eachParam
  dsimp only
  split
  · refine .trans ?_ (load _ fun sonar => absurd sonar (by decide))
    refine .trans ?_ (load _ fun drive => absurd drive (by decide))
    exact (load f fun system => absurd system (by decide)).trans (joints _)
  · refine .trans ?_ (load _ fun drive => absurd drive (by decide))
    exact (load f fun system => absurd system (by decide)).trans (joints _)

theorem paramInitIndexed (b : Board F) (globals : IndexedGlobals f)
    (slots : load32 f.eeprom protocolVersionOffset = load32 (f.globals .systemParams) 4 → IndexedSlots f.eeprom) :
    Indexed (paramInit b f) := by
  unfold paramInit
  refine (setSteady _ _ (by decide)).indexed ((loadsSteady b _).indexed ?_)
  split
  · exact savesIndexed b ⟨globals.statuses, globals.params⟩
  · rename_i same
    exact ⟨globals, slots (not_not.mp same)⟩

theorem bootIndexed {buffers : PacketBuffers} {base : PacketHandler PacketType} {memory eeprom : Memory}
    (slots : load32 eeprom protocolVersionOffset = orazioProtocolVersion → IndexedSlots eeprom) :
    Indexed (boot b buffers base memory eeprom).app := by
  have params := paramInitIndexed b (powerOnIndexed b eeprom) fun same => slots (same.trans (powerOnVersion b eeprom))
  have joints := (jointsInitEnds b (paramInit b (powerOn b eeprom))).only.steady.indexed params
  have drive := (driveInitOnly b _).steady.indexed joints
  unfold boot
  generalize (driveInit b (jointsInit b (paramInit b (powerOn b eeprom))).2).2 = f at drive
  dsimp only
  have sonars : Indexed (if b.sonar then (sonarInit f).2 else f) := by
    split
    · have initialised : Steady f (sonarInit f).2 := steadySame rfl rfl rfl
      exact initialised.indexed drive
    · exact drive
  generalize (if b.sonar then (sonarInit f).2 else f) = g at sonars
  obtain ⟨app, -⟩ := installAllOutside (packets b.sonar buffers)
    (DeferredPacketHandler.initializeHandler ⟨base, memory, { g with globalSeq := 0 }⟩)
  have started : Indexed (commInit b.sonar buffers ⟨base, memory, { g with globalSeq := 0 }⟩).outside.app := by
    have same : (commInit b.sonar buffers ⟨base, memory, { g with globalSeq := 0 }⟩).outside.app = { g with globalSeq := 0 } := app
    rw [same]
    exact ⟨⟨sonars.globals.statuses, sonars.globals.params⟩, sonars.slots⟩
  generalize commInit b.sonar buffers ⟨base, memory, { g with globalSeq := 0 }⟩ = m at started
  have counted : Steady m.outside.app (setWatchdogCount m.outside.app (watchdogCycles m.outside.app)) := setSteady _ _ (by decide)
  have told : ∀ text (f : State F), Steady f (commSendString text f) := fun _ f => setSteady _ f (by decide)
  exact (counted.trans (told _ _)).indexed started

end Boot

end OrazioLogger.Firmware
