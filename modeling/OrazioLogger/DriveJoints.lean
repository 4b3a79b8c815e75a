import OrazioLogger.PacketHeaders

/-! The joints the drive is bound to: the indices in its parameters, and the pointers it keeps from its initialisation. -/
namespace OrazioLogger.Firmware
open ByteMemory Countdown OrazioPackets OrazioComm DeferredPacketHandler
open OrazioClient (load16 load32 store32)

variable {F : Type}

/- The status and the control of a joint, and those of the left and of the right joint of the drive. -/
def pointers (j : JointController) : Option Nat × Option Nat := (j.status, j.control)

def drivePointers (f : State F) : (Option Nat × Option Nat) × Option Nat × Option Nat :=
  let ctr := f.driveController
  ((ctr.statusLeft, ctr.controlLeft), (ctr.statusRight, ctr.controlRight))

/- The drive reads and writes the records of two joints that there are. -/
def OnJoints (f : State F) : Prop :=
  ∃ left < numJoints, ∃ right < numJoints, drivePointers f = ((some left, some left), (some right, some right))

/- The joint indices of drive parameters, wherever these are. -/
def IndicesExist (m : Memory) (a : Nat) : Prop := (m (a + 36)).toNat < numJoints ∧ (m (a + 37)).toNat < numJoints

instance (f : State F) : Decidable (OnJoints f) := by unfold OnJoints; infer_instance
instance (m a) : Decidable (IndicesExist m a) := by unfold IndicesExist; infer_instance

/- Initialised joints, and parameters in RAM and in the EEPROM that name some of them. -/
structure Supplied (f : State F) : Prop where
  paired : ∀ i, (f.jointControllers i).status = (f.jointControllers i).control
  params : IndicesExist (f.globals .driveParams) 0
  stored : IndicesExist f.eeprom driveParamOffset

structure Seated (f : State F) : Prop where
  supplied : Supplied f
  joints : Bound f
  drive : OnJoints f

/-! What leaves the drive as it is bound. -/

structure Unbinding (f later : State F) : Prop where
  joints : ∀ i, pointers (later.jointControllers i) = pointers (f.jointControllers i) ∨
    pointers (later.jointControllers i) = (some i, some i)
  params : ∀ a, 36 ≤ a → later.globals .driveParams a = f.globals .driveParams a
  stored : ∀ a, driveParamOffset ≤ a → a < sonarParamOffset → later.eeprom a = f.eeprom a

structure Unmoved (f later : State F) : Prop where
  rest : Unbinding f later
  drive : drivePointers later = drivePointers f

section Unmoved
variable {b : Board F} {f mid later : State F} {touched : Global → Nat → Prop}

theorem Unbinding.refl (f : State F) : Unbinding f f := ⟨fun _ => Or.inl rfl, fun _ _ => rfl, fun _ _ _ => rfl⟩

theorem Unbinding.trans (first : Unbinding f mid) (second : Unbinding mid later) : Unbinding f later := by
  refine ⟨fun i => ?_, fun a low => (second.params a low).trans (first.params a low),
    fun a low high => (second.stored a low high).trans (first.stored a low high)⟩
  rcases second.joints i with kept | reset
  · rw [kept]
    exact first.joints i
  · exact Or.inr reset

theorem Unmoved.refl (f : State F) : Unmoved f f := ⟨.refl f, rfl⟩

theorem Unmoved.trans (first : Unmoved f mid) (second : Unmoved mid later) : Unmoved f later :=
  ⟨first.rest.trans second.rest, second.drive.trans first.drive⟩

/- Whoever leaves the controllers and the EEPROM alone, and the indices. -/
theorem unmoved (same : SameOutside touched f later) (apart : ∀ a, 36 ≤ a → ¬ touched .driveParams a)
    (joints : later.jointControllers = f.jointControllers) (drive : later.driveController = f.driveController)
    (eeprom : later.eeprom = f.eeprom) : Unmoved f later := by
  refine ⟨⟨fun i => Or.inl (by rw [joints]), fun a low => same _ a (apart a low), fun a _ _ => by rw [eeprom]⟩, ?_⟩
  unfold drivePointers
  rw [drive]

theorem setUnmoved {g : Global} (m : Memory) (f : State F) (other : g ≠ .driveParams) : Unmoved f (f.set g m) :=
  ⟨⟨fun _ => Or.inl rfl, fun _ _ => by rw [setOther f g m other.symm], fun _ _ _ => rfl⟩, rfl⟩

theorem faultedUnmoved (f : State F) : Unmoved f f.faulted := ⟨⟨fun _ => Or.inl rfl, fun _ _ => rfl, fun _ _ _ => rfl⟩, rfl⟩

theorem indicesKept {m k : Memory} {a c : Nat} (exist : IndicesExist m a) (right : k (c + 36) = m (a + 36))
    (left : k (c + 37) = m (a + 37)) : IndicesExist k c := by
  unfold IndicesExist
  rw [right, left]
  exact exist

theorem Supplied.kept (supplied : Supplied f) (unbinding : Unbinding f later) : Supplied later := by
  refine ⟨fun i => ?_, ?_, ?_⟩
  · rcases unbinding.joints i with kept | reset
    · have pair := Prod.mk.inj kept
      exact pair.1.trans ((supplied.paired i).trans pair.2.symm)
    · have pair := Prod.mk.inj reset
      exact pair.1.trans pair.2.symm
  · exact indicesKept supplied.params (unbinding.params _ (by decide)) (unbinding.params _ (by decide))
  · exact indicesKept supplied.stored (unbinding.stored _ (by decide) (by decide)) (unbinding.stored _ (by decide) (by decide))

theorem Unbinding.bound (unbinding : Unbinding f later) (bound : Bound f) : Bound later := by
  intro i inside
  rcases unbinding.joints i with kept | reset
  · exact (Prod.mk.inj kept).2.trans (bound i inside)
  · exact (Prod.mk.inj reset).2

theorem JointsOnly.unmoved (only : JointsOnly f later) : Unmoved f later := by
  refine ⟨⟨fun i => (only.controllers i).imp (fun kept => by rw [kept]) fun reset => by rw [reset]; rfl,
    fun a _ => only.globals _ a fun pin => (nomatch pin.1), fun a _ _ => by rw [only.same]⟩, ?_⟩
  unfold drivePointers
  rw [only.same]

theorem SendsOnly.unmoved {o later : Outside F} (only : SendsOnly o later) : Unmoved o.app later.app := by
  refine Firmware.unmoved only.globals (fun a low stamped => ?_) (by rw [only.same]) (by rw [only.same]) (by rw [only.same])
  have header : a = 2 ∨ a = 3 := stamped
  omega

theorem ReceptionOnly.unmoved {m later : Machine F} (only : ReceptionOnly m later) :
    Unmoved m.outside.app later.outside.app :=
  Firmware.unmoved only.globals (fun _ _ written => nomatch written.1) (by rw [only.same]) (by rw [only.same]) (by rw [only.same])

theorem BridgesOnly.unmoved (only : BridgesOnly f later) : Unmoved f later := by
  have same : SameOutside (fun _ _ => False) f later := fun g a _ => by rw [only.globals]
  exact Firmware.unmoved same (fun _ _ => id) (by rw [only.same]) (by rw [only.same]) (by rw [only.same])

theorem DriveOnly.unbinding (only : DriveOnly f later) : Unbinding f later :=
  ⟨fun i => Or.inl (by rw [only.same]), fun a _ => only.globals _ a fun written => (nomatch written.1),
    fun a _ _ => by rw [only.same]⟩

/-! The loop, but for the communication. -/

/- A joint controller that keeps its pointers. -/
theorem setControllerUnmoved {i : Nat} {j : JointController} (same : pointers j = pointers (f.jointControllers i)) :
    Unmoved f (setController f i j) := by
  refine ⟨⟨fun k => Or.inl ?_, fun _ _ => rfl, fun _ _ _ => rfl⟩, rfl⟩
  unfold setController
  dsimp only
  by_cases here : k = i
  · rw [here, Function.update_self, same]
  · rw [Function.update_of_ne here]

theorem jointControllerHandleUnmoved (enc : UInt16) (i : Nat) (f : State F) : Unmoved f (jointControllerHandle enc i f) := by
  have status : ∀ (f : State F) m, Unmoved f (f.set .jointStatus m) := fun f m => setUnmoved m f (by decide)
  unfold jointControllerHandle
  dsimp only
  split
  · rename_i s c p _ _ _
    have measured : ∀ speed enc mode output, Unmoved f (setWord (setByte (setWord (setWord f .jointStatus
        (jointStatusAt s + 7) speed) .jointStatus (jointStatusAt s + 5) enc) .jointStatus (jointStatusAt s + 15) mode)
        .jointStatus (jointStatusAt s + 11) output) := fun _ _ _ _ =>
      (status _ _).trans ((status _ _).trans ((status _ _).trans (status _ _)))
    split
    · exact (measured _ _ _ _).trans (setControllerUnmoved rfl)
    split
    · exact (measured _ _ _ _).trans (setControllerUnmoved rfl)
    split
    · exact ((measured _ _ _ _).trans (status _ _)).trans (setControllerUnmoved rfl)
    · exact measured _ _ _ _
  · exact faultedUnmoved f

theorem foldUnmoved {step : State F → Nat → State F} (one : ∀ f i, Unmoved f (step f i)) (is : List Nat) (f : State F) :
    Unmoved f (is.foldl step f) := by
  induction is generalizing f with
  | nil => exact .refl f
  | cons i rest ih => exact (one f i).trans (ih _)

theorem jointsHandleUnmoved (b : Board F) (encoders : Nat → UInt16) (f : State F) : Unmoved f (jointsHandle b encoders f) :=
  (foldUnmoved (fun f i => jointControllerHandleUnmoved (encoders i) i f) _ f).trans
    (foldUnmoved (fun f i => (hBridgeSetSpeedOnly i (f.jointControllers i).output f).unmoved) _ _)

theorem encoderOfDrive (status : Option Nat) : (encoderOf f status).2.driveController = f.driveController := by
  cases status <;> rfl

theorem driveUpdateUnmoved (b : Board F) (f : State F) : Unmoved f (driveUpdate b f) := by
  refine ⟨(driveUpdateOnly b f).unbinding, ?_⟩
  have advanced : ∀ right left (f : State F), drivePointers (driveAdvance b right left f) = drivePointers f := fun _ _ _ => rfl
  unfold driveUpdate
  rw [advanced]
  unfold drivePointers
  rw [encoderOfDrive, encoderOfDrive]
  split <;> rfl

theorem driveControlUnmoved (b : Board F) (f : State F) : Unmoved f (driveControl b f) := by
  have recognised : Unmoved f (recogniseCommand f) := by
    unfold recogniseCommand
    split
    · have flagged : Unmoved f (setByte f .driveStatus 40 1) := setUnmoved _ f (by decide)
      exact flagged.trans ⟨⟨fun _ => Or.inl rfl, fun _ _ => rfl, fun _ _ _ => rfl⟩, rfl⟩
    · exact .refl f
  have speed : ∀ control speed (f : State F), Unmoved f (setJointSpeed f control speed) := by
    intro control speed f
    cases control with
    | none => exact faultedUnmoved f
    | some i => exact setUnmoved _ f (by decide)
  have mode : ∀ control mode (f : State F), Unmoved f (setJointMode f control mode) := by
    intro control mode f
    cases control with
    | none => exact faultedUnmoved f
    | some i => exact setUnmoved _ f (by decide)
  unfold driveControl
  dsimp only
  split
  · refine recognised.trans ?_
    unfold driveControllerControl
    dsimp only
    exact ((speed _ _ _).trans (speed _ _ _)).trans ((mode _ _ _).trans (mode _ _ _))
  · exact recognised

theorem sonarHandleUnmoved (ranges : Nat → UInt16) (f : State F) : Unmoved f (sonarHandle ranges f) := by
  have counted : ∀ (g : State F) ready cycle polls, Unmoved g
      { g with sonarReady := ready, sonarCurrentCycle := cycle, sonarPolls := polls } := fun g _ _ _ =>
    ⟨⟨fun _ => Or.inl rfl, fun _ _ => rfl, fun _ _ _ => rfl⟩, rfl⟩
  have polled : ∀ (sonars : List Nat) (f : State F),
      Unmoved f (sonars.foldl (fun f s => setWord f .sonarStatus (4 + 2 * s) (ranges s)) f) :=
    foldUnmoved fun f _ => setUnmoved _ f (by decide)
  unfold sonarHandle
  dsimp only
  split
  · exact counted f _ _ _
  split
  · exact counted f _ _ _
  · generalize List.range sonarsNum = sonars
    exact ((counted f _ _ _).trans (polled sonars _)).trans (counted _ _ _ _)

theorem watchdogHandleUnmoved (f : State F) : Unmoved f (watchdogHandle f) := by
  have disable : ∀ i (f : State F), Unmoved f (disableJoint f i) := by
    intro i f
    unfold disableJoint
    dsimp only
    refine .trans ?_ (setControllerUnmoved rfl)
    cases (f.jointControllers i).control with
    | none => exact faultedUnmoved f
    | some c => exact setUnmoved _ f (by decide)
  have down : Unmoved f (countDown f) := by
    unfold countDown
    split
    · exact setUnmoved _ f (by decide)
    · exact .refl f
  rw [watchdogHandleCounts]
  split
  · exact setUnmoved _ f (by decide)
  split
  · exact down.trans ((setUnmoved _ _ (by decide)).trans ((disable 0 _).trans (disable 1 _)))
  · exact down

theorem unmovedFrame (b : Board F) : LoopFrame b fun s later => Unmoved s.app later.app where
  refl s := .refl s.app
  trans _ _ _ := .trans
  flags s _ _ := .refl s.app
  joints s encoders := jointsHandleUnmoved b encoders s.app
  driven s := driveUpdateUnmoved b s.app
  controlled s := driveControlUnmoved b s.app
  sonars s ranges := sonarHandleUnmoved ranges s.app
  reset s := setUnmoved _ s.app (by decide)
  watchdog s := watchdogHandleUnmoved s.app
  idle s := setUnmoved _ s.app (by decide)
  finished s := setUnmoved _ s.app (by decide)

end Unmoved

/-! What may bind the drive anew, but to joints that there are. -/

structure StaysSeated (f later : State F) : Prop where
  supplied : Supplied f → Supplied later
  joints : Bound f → Bound later
  drive : Supplied f → Bound f → OnJoints f → OnJoints later

section Stays
variable {b : Board F} {f mid later : State F} {o : Outside F} {p : Addr} {args : PacketHandlerArgs}
  {action : DeferredAction} {m : Machine F} {line : Line}

theorem StaysSeated.trans (first : StaysSeated f mid) (second : StaysSeated mid later) : StaysSeated f later :=
  ⟨fun supplied => second.supplied (first.supplied supplied), fun bound => second.joints (first.joints bound),
    fun supplied bound drive => second.drive (first.supplied supplied) (first.joints bound) (first.drive supplied bound drive)⟩

theorem Seated.stays (seated : Seated f) (stays : StaysSeated f later) : Seated later :=
  ⟨stays.supplied seated.supplied, stays.joints seated.joints, stays.drive seated.supplied seated.joints seated.drive⟩

/- Whoever keeps the pointers of the drive. -/
theorem staysSame (supplied : Supplied f → Supplied later) (joints : Bound f → Bound later)
    (same : drivePointers later = drivePointers f) : StaysSeated f later :=
  ⟨supplied, joints, fun _ _ drive => by
    unfold OnJoints
    rw [same]
    exact drive⟩

theorem Unmoved.stays (unmoved : Unmoved f later) : StaysSeated f later :=
  staysSame (fun supplied => supplied.kept unmoved.rest) unmoved.rest.bound unmoved.drive

theorem driveInitPointers (params : IndicesExist (f.globals .driveParams) 0) : drivePointers (driveInit b f).2 =
    (pointers (f.jointControllers (leftJointIndex f).toNat), pointers (f.jointControllers (rightJointIndex f).toNat)) := by
  have left : controllerAt f (leftJointIndex f) = (f.jointControllers (leftJointIndex f).toNat, f) := if_pos params.2
  have right : controllerAt f (rightJointIndex f) = (f.jointControllers (rightJointIndex f).toNat, f) := if_pos params.1
  have bind : ∀ l r dt jointsDt (f : State F), drivePointers (driveControllerInit b l r dt jointsDt f) =
      (pointers l, pointers r) := by
    intro l r dt jointsDt f
    unfold driveControllerInit driveControllerReset drivePointers
    dsimp only
    rw [encoderOfDrive, encoderOfDrive]
    rfl
  unfold driveInit driveInitController
  rw [left]
  dsimp only
  rw [right]
  exact bind _ _ _ _ f

theorem driveInitOnJoints (supplied : Supplied f) (bound : Bound f) : OnJoints (driveInit b f).2 := by
  have pointed : ∀ i < numJoints, pointers (f.jointControllers i) = (some i, some i) := fun i inside =>
    Prod.ext ((supplied.paired i).trans (bound i inside)) (bound i inside)
  have params := supplied.params
  refine ⟨_, params.2, _, params.1, ?_⟩
  rw [driveInitPointers params]
  exact Prod.ext (pointed _ params.2) (pointed _ params.1)

theorem driveInitStays (b : Board F) (f : State F) : StaysSeated f (driveInit b f).2 := by
  have unbinding := (driveInitOnly b f).unbinding
  exact ⟨fun supplied => supplied.kept unbinding, unbinding.bound, fun supplied bound _ => driveInitOnJoints supplied bound⟩

theorem sonarInitUnmoved (f : State F) : Unmoved f (sonarInit f).2 :=
  ⟨⟨fun _ => Or.inl rfl, fun _ _ => rfl, fun _ _ _ => rfl⟩, rfl⟩

theorem postCopyStays (b : Board F) (args : PacketHandlerArgs) (f : State F) : StaysSeated f (postCopy b args f).2 := by
  cases args with
  | driveControl | jointControl => exact (Unmoved.refl f).stays
  | systemParam | driveParam => exact driveInitStays b f
  | sonarParam => exact (sonarInitUnmoved f).stays
  | jointParam => exact (jointsInitEnds b f).only.unmoved.stays

/- Drive parameters written, with the indices of joints that there are. -/
theorem paramsStay (m : Memory) (f : State F) (exist : IndicesExist m 0) : StaysSeated f (f.set .driveParams m) := by
  refine staysSame (fun supplied => ⟨supplied.paired, ?_, supplied.stored⟩) id rfl
  rw [setSame]
  exact exist

theorem copyPacketStays {memory : Memory} (f : State F) (valid : ValidPacket memory p (.handlePacket args))
    (taken : refused args memory p = false) (exist : args = .driveParam → IndicesExist memory p) :
    StaysSeated f (copyPacket args (copyOffset args memory p) memory p f) := by
  obtain ⟨offset, place, inside, -⟩ := valid.copyOffset taken
  rw [place, copyPacketInside valid.1 inside]
  cases args with
  | driveParam =>
    obtain rfl : offset = 0 := Int.ofNat_inj.mp place.symm
    refine paramsStay _ f ?_
    have copied : ∀ i : Nat, i < 38 → copyBytes (f.globals .driveParams) 0 memory p 38 (0 + i) = memory (p + i) :=
      fun i inside => copyBytesInside inside
    exact indicesKept (exist rfl) (copied 36 (by decide)) (copied 37 (by decide))
  | systemParam | driveControl | sonarParam | jointControl | jointParam => exact (setUnmoved _ f (by decide)).stays

theorem handledStays (valid : ValidPacket o.memory p (.handlePacket args)) (taken : refused args o.memory p = false)
    (exist : args = .driveParam → IndicesExist o.memory p) : StaysSeated o.app (handled b args p o).2 := by
  have numbered : Unmoved o.app (setRxSeq o.memory p o.app) := setUnmoved _ _ (by decide)
  unfold handled
  refine .trans ?_ (postCopyStays b args _)
  refine .trans ?_ (copyPacketStays _ valid taken exist)
  split
  · exact (numbered.trans (setUnmoved _ _ (by decide))).stays
  · exact numbered.stays

theorem paramSetStays (b : Board F) (paramType : UInt8) (f : State F) : StaysSeated f (paramSet b paramType f).2 := by
  unfold paramSet
  split
  · exact driveInitStays b f
  split
  · exact (jointsInitEnds b f).only.unmoved.stays
  split
  · exact driveInitStays b f
  split
  · exact (sonarInitUnmoved f).stays
  · exact (Unmoved.refl f).stays

/- The drive parameters of the EEPROM. -/
theorem driveReadStays (f : State F) : StaysSeated f (eepromRead f .driveParams 0 driveParamOffset 38) := by
  refine staysSame (fun supplied => ⟨supplied.paired, ?_, supplied.stored⟩) id rfl
  have copied : ∀ i : Nat, i < 38 → (eepromRead f .driveParams 0 driveParamOffset 38).globals .driveParams (0 + i) =
      f.eeprom (driveParamOffset + i) := fun i inside => by
    unfold eepromRead
    rw [setSame]
    exact copyBytesInside inside
  exact indicesKept supplied.stored (copied 36 (by decide)) (copied 37 (by decide))

theorem checkIndexUnmoved (index : Int) (f : State F) : Unmoved f (checkIndex f index) := by
  unfold checkIndex
  split
  · exact .refl f
  · exact faultedUnmoved f

theorem paramLoadStays (b : Board F) (paramType : UInt8) (index : Int) (f : State F) :
    StaysSeated f (paramLoad b paramType index f).2 := by
  have read : ∀ (f : State F) g offset src size, g ≠ .driveParams → Unmoved f (eepromRead f g offset src size) :=
    fun f g _ _ _ other => setUnmoved _ f other
  unfold paramLoad
  split
  · exact (read f _ _ _ _ (by decide)).stays.trans (paramSetStays b _ _)
  split
  · refine .trans ?_ (paramSetStays b _ _)
    split
    · exact ((checkIndexUnmoved index f).trans (read _ _ _ _ _ (by decide))).stays
    · exact (checkIndexUnmoved index f).stays
  split
  · exact (driveReadStays f).trans (paramSetStays b _ _)
  split
  · exact (read f _ _ _ _ (by decide)).stays.trans (paramSetStays b _ _)
  · exact (Unmoved.refl f).stays

/- A slot of the EEPROM other than that of the drive. -/
theorem eepromWriteUnmoved {g : Global} {slot offset size : Nat} (f : State F)
    (apart : slot + size ≤ driveParamOffset ∨ sonarParamOffset ≤ slot) : Unmoved f (eepromWrite f slot g offset size) := by
  refine ⟨⟨fun _ => Or.inl rfl, fun _ _ => rfl, fun a low high => copyBytesOutside ?_⟩, rfl⟩
  omega

theorem driveWritten (params : IndicesExist (f.globals .driveParams) 0) :
    IndicesExist (eepromWrite f driveParamOffset .driveParams 0 38).eeprom driveParamOffset := by
  have copied : ∀ i : Nat, i < 38 → (eepromWrite f driveParamOffset .driveParams 0 38).eeprom (driveParamOffset + i) =
      f.globals .driveParams (0 + i) := fun i inside => copyBytesInside inside
  exact indicesKept params (copied 36 (by decide)) (copied 37 (by decide))

theorem driveWriteStays (f : State F) : StaysSeated f (eepromWrite f driveParamOffset .driveParams 0 38) :=
  staysSame (fun supplied => ⟨supplied.paired, supplied.params, driveWritten supplied.params⟩) id rfl

theorem paramSaveStays (b : Board F) {paramType : UInt8} {index : Int} (f : State F)
    (valid : paramType = paramJointsSingle → JointIndex index) : StaysSeated f (paramSave b paramType index f).2 := by
  unfold paramSave
  split
  · exact (eepromWriteUnmoved f (Or.inl (by decide))).stays
  split
  · rename_i joints
    have inside := valid joints
    have slot : jointSlot index = 114 + 25 * index.toNat := by
      have entry := jointSlotEntry (i := index.toNat) ((Int.toNat_lt inside.1).mpr inside.2)
      rwa [Int.toNat_of_nonneg inside.1] at entry
    have behind : sonarParamOffset ≤ jointSlot index := by
      rw [slot]
      exact le_trans (by decide) (Nat.le_add_right 114 _)
    exact ((checkIndexUnmoved index f).trans (eepromWriteUnmoved _ (Or.inr behind))).stays
  split
  · exact driveWriteStays f
  split
  · exact (eepromWriteUnmoved f (Or.inr (by decide))).stays
  · exact (Unmoved.refl f).stays

theorem requestedStays (valid : ValidPacket o.memory p .handleParamCtl) : StaysSeated o.app (requested b p o).2 := by
  have numbered : StaysSeated o.app (setRxSeq o.memory p o.app) := (setUnmoved _ _ (by decide)).stays
  unfold requested
  dsimp only
  split
  · exact numbered
  split
  · exact numbered.trans (paramLoadStays b _ _ _)
  split
  · exact numbered.trans (paramSaveStays b _ valid.jointIndex)
  · exact numbered

theorem preparedStays (found : actionOf b.sonar (o.memory p) = some action) (valid : ValidPacket o.memory p action)
    (exist : o.memory p = differentialDriveParamPacketId → IndicesExist o.memory p) :
    StaysSeated o.app (prepared b action p o) := by
  cases action with
  | handleParamCtl => exact requestedStays valid
  | handlePacket args =>
    unfold prepared
    dsimp only
    cases taken : refused args o.memory p with
    | true => exact (setUnmoved _ _ (by decide)).stays
    | false =>
      refine handledStays valid taken fun drive => exist ?_
      rw [actionTyped found, drive]
      rfl

theorem actStays (found : actionOf b.sonar (o.memory p) = some action) (valid : ValidPacket o.memory p action)
    (exist : o.memory p = differentialDriveParamPacketId → IndicesExist o.memory p) :
    StaysSeated o.app (act b action p o).app :=
  (preparedStays (b := b) found valid exist).trans (actSends valid).unmoved.stays

theorem processLoopStays (pending : List Addr) (tabled : Tabled b.sonar m)
    (valid : ∀ p ∈ pending, ValidPending b.sonar m.outside.memory p)
    (exist : ∀ p ∈ pending, m.outside.memory p = differentialDriveParamPacketId → IndicesExist m.outside.memory p) :
    StaysSeated m.outside.app (processLoop (act b) m pending).1.outside.app := by
  induction pending generalizing m with
  | nil => exact (Unmoved.refl _).stays
  | cons p rest ih =>
    obtain ⟨action, found, validHere⟩ := valid p List.mem_cons_self
    have processed := processPacketProcessed tabled found validHere
    have first := actStays found validHere (exist p List.mem_cons_self)
    rw [← processPacketActs tabled found] at first
    have second := ih processed.tabled
      (fun q member => by
        rw [processed.memory]
        exact valid q (List.mem_cons_of_mem p member))
      (fun q member => by
        rw [processed.memory]
        exact exist q (List.mem_cons_of_mem p member))
    exact first.trans second

end Stays

/-! The run. -/

/- The packets that a turn of the loop finds pending, if it handles a cycle. -/
def epochFound (b : Board F) (s : Main F) (turn : Turn) : Machine F :=
  beginEpoch turn.line (beforeComm b turn (idleTurn b s turn)).machine

/- The packet is answered with an error and leaves the drive as it is. -/
def Refuses (b : Board F) (p : Addr) (o : Outside F) : Prop :=
  let later := act b (.handlePacket .driveParam) p o
  signed8 (later.app.globals .response 7) < 0 ∧ drivePointers later.app = drivePointers o.app

/- The joints that a cycle uses: what `DifferentialDriveController_update` and `DifferentialDriveController_control` find,
and what is bound by the packets of the cycle, one after the other. -/
structure UsesJoints (b : Board F) (s : Main F) (turn : Turn) : Prop where
  updated : OnJoints (ticks b turn 1 (idleTurn b s turn)).app
  controlled : OnJoints (ticks b turn 2 ((ticks b turn 1 (idleTurn b s turn)).update (driveUpdate b))).app
  bound : ∀ past rest, (epochFound b s turn).queue.pendingPackets = past ++ rest →
    OnJoints (processLoop (act b) (epochFound b s turn) past).1.outside.app
  refused : ∀ past p rest, (epochFound b s turn).queue.pendingPackets = past ++ p :: rest →
    let o := (processLoop (act b) (epochFound b s turn) past).1.outside
    o.memory p = differentialDriveParamPacketId → ¬ IndicesExist o.memory p → Refuses b p o

/- What is asked of the packets of a cycle. -/
structure NamesJoints (b : Board F) (s : Main F) (turn : Turn) : Prop where
  valid : ValidBatch b turn.line (beforeComm b turn (idleTurn b s turn)).machine
  exist : ∀ p ∈ (epochFound b s turn).queue.pendingPackets,
    (epochFound b s turn).outside.memory p = differentialDriveParamPacketId → IndicesExist (epochFound b s turn).outside.memory p

section Runs
variable {b : Board F} {turn : Turn} {s : Main F} {f : State F}

theorem epochTabled (tabled : Tabled b.sonar s.machine) : Tabled b.sonar (epochFound b s turn) := by
  refine beginEpochTabled turn.line fun t => ?_
  rw [(beforeCommTurn b s turn).queue]
  exact tabled t

theorem epochUnmoved (b : Board F) (s : Main F) (turn : Turn) : Unmoved s.app (epochFound b s turn).outside.app := by
  have before := ((unmovedFrame b).idleTurn s turn).trans ((unmovedFrame b).beforeComm turn _)
  exact before.trans (beginEpochOnly turn.line _).unmoved

theorem loopTurnTabled (tabled : Tabled b.sonar s.machine)
    (valid : handles b s turn = true → ValidBatch b turn.line (beforeComm b turn (idleTurn b s turn)).machine) :
    Tabled b.sonar (loopTurn b s turn).machine := by
  cases handled : handles b s turn with
  | false =>
    intro t
    rw [loopTurnIdle handled, (idleTurnOnly b s turn).carried.queue]
    exact tabled t
  | true =>
    have before : Tabled b.sonar (beforeComm b turn (idleTurn b s turn)).machine := fun t => by
      rw [(beforeCommTurn b s turn).queue]
      exact tabled t
    intro t
    rw [loopTurnHandled handled, (finishCycleOnly b turn _).carried.queue]
    exact (communicateQueue before (valid handled) _).1 t

theorem commHandleStays (tabled : Tabled b.sonar s.machine) (names : NamesJoints b s turn) :
    StaysSeated s.app (commHandle b turn.line (beforeComm b turn (idleTurn b s turn)).machine).2.outside.app := by
  have processed := processLoopStays (epochFound b s turn).queue.pendingPackets (epochTabled tabled) names.valid names.exist
  have completed := (sendPeriodicOnly b (processPending b (epochFound b s turn)).outside).unmoved
  have counted : Unmoved (completeEpoch b (processPending b (epochFound b s turn))).outside.app
      (commHandle b turn.line (beforeComm b turn (idleTurn b s turn)).machine).2.outside.app := setUnmoved _ _ (by decide)
  exact ((epochUnmoved b s turn).stays.trans processed).trans (completed.trans counted).stays

theorem loopTurnStays (tabled : Tabled b.sonar s.machine) (names : handles b s turn = true → NamesJoints b s turn) :
    StaysSeated s.app (loopTurn b s turn).app := by
  cases handled : handles b s turn with
  | false =>
    rw [loopTurnIdle handled]
    exact ((unmovedFrame b).idleTurn s turn).stays
  | true =>
    rw [loopTurnHandled handled]
    exact (commHandleStays tabled (names handled)).trans ((unmovedFrame b).afterComm turn _ _).stays

theorem seatedUses (tabled : Tabled b.sonar s.machine) (seated : Seated s.app) (names : NamesJoints b s turn) :
    UsesJoints b s turn := by
  have frame := unmovedFrame b
  have idle := (frame.idleTurn s turn).trans (frame.ticks turn 1 _)
  have updated := idle.trans ((frame.driven _).trans (frame.ticks turn 2 _))
  have epoch := seated.stays (epochUnmoved b s turn).stays
  refine ⟨(seated.stays idle.stays).drive, (seated.stays updated.stays).drive, fun past rest found => ?_, ?_⟩
  · have before : ∀ p ∈ past, p ∈ (epochFound b s turn).queue.pendingPackets := fun p member => by
      rw [found]
      exact List.mem_append_left rest member
    exact (epoch.stays (processLoopStays past (epochTabled tabled) (fun p member => names.valid p (before p member))
      fun p member => names.exist p (before p member))).drive
  · intro past p rest found o typed stray
    have before : ∀ q ∈ past, q ∈ (epochFound b s turn).queue.pendingPackets := fun q member => by
      rw [found]
      exact List.mem_append_left _ member
    have memory : o.memory = (epochFound b s turn).outside.memory :=
      (processLoopProcessed past (epochTabled tabled) fun q member => names.valid q (before q member)).memory
    have here : p ∈ (epochFound b s turn).queue.pendingPackets := by
      rw [found]
      exact List.mem_append_right past List.mem_cons_self
    rw [memory] at typed stray
    exact absurd (names.exist p here typed) stray

/-! Booting. -/

theorem loadsStay (b : Board F) (f : State F) :
    StaysSeated f (eachParam b (fun paramType index f => (paramLoad b paramType index f).2) f) := by
  have load := fun paramType index (f : State F) => paramLoadStays b paramType index f
  have joints : ∀ f : State F, StaysSeated f
      ((List.range numJoints).foldl (fun f i => (paramLoad b paramJointsSingle (i : Nat) f).2) f) := fun f =>
    (load _ _ f).trans (load _ _ _)
  unfold eachParam
  dsimp only
  split
  · exact (((load _ _ f).trans (joints _)).trans (load _ _ _)).trans (load _ _ _)
  · exact ((load _ _ f).trans (joints _)).trans (load _ _ _)

/- Whatever the EEPROM held, the drive parameters are in it afterwards. -/
theorem savesSupply (b : Board F) (paired : ∀ i, (f.jointControllers i).status = (f.jointControllers i).control)
    (params : IndicesExist (f.globals .driveParams) 0) :
    Supplied (eachParam b (fun paramType index f => (paramSave b paramType index f).2) f) := by
  obtain ⟨g, same, joints, globals⟩ : ∃ g : State F, eachParam b (fun paramType index f => (paramSave b paramType index f).2) f =
      (if b.sonar then (paramSave b paramSonar (-1) (eepromWrite g driveParamOffset .driveParams 0 38)).2
        else eepromWrite g driveParamOffset .driveParams 0 38) ∧
      g.jointControllers = f.jointControllers ∧ g.globals = f.globals := ⟨_, rfl, rfl, rfl⟩
  have kept : IndicesExist (g.globals .driveParams) 0 := by
    rw [globals]
    exact params
  have saved : Supplied (eepromWrite g driveParamOffset .driveParams 0 38) := by
    refine ⟨fun i => ?_, kept, driveWritten kept⟩
    change (g.jointControllers i).status = (g.jointControllers i).control
    rw [joints]
    exact paired i
  rw [same]
  split
  · exact (paramSaveStays b _ fun joints => absurd joints (by decide)).supplied saved
  · exact saved

theorem paramInitSupplied (b : Board F) (paired : ∀ i, (f.jointControllers i).status = (f.jointControllers i).control)
    (params : IndicesExist (f.globals .driveParams) 0)
    (stored : load32 f.eeprom protocolVersionOffset = load32 (f.globals .systemParams) 4 →
      IndicesExist f.eeprom driveParamOffset) : Supplied (paramInit b f) := by
  have versions : ∀ (f : State F) m, Supplied f → Supplied (f.set .systemParams m) := fun f m =>
    (setUnmoved m f (by decide)).stays.supplied
  unfold paramInit
  refine versions _ _ ((loadsStay b _).supplied ?_)
  split
  · exact savesSupply b paired params
  · rename_i same
    exact ⟨paired, params, stored (not_not.mp same)⟩

theorem powerOnIndices (b : Board F) (eeprom : Memory) : IndicesExist ((powerOn b eeprom).globals .driveParams) 0 := by
  have right : (powerOn b eeprom).globals .driveParams (0 + 36) = 0 := rfl
  have left : (powerOn b eeprom).globals .driveParams (0 + 37) = 1 := rfl
  unfold IndicesExist
  rw [right, left]
  decide

/- What follows on the last initialisation of the drive. -/
theorem bootUnmoved (b : Board F) (buffers : PacketBuffers) (base : PacketHandler PacketType) (memory eeprom : Memory) :
    let f := (jointsInit b (paramInit b (powerOn b eeprom))).2
    Unmoved (driveInit b f).2 (boot b buffers base memory eeprom).app ∧
      (boot b buffers base memory eeprom).app.jointControllers = f.jointControllers := by
  intro f
  have controllers : (driveInit b f).2.jointControllers = f.jointControllers := by rw [(driveInitOnly b f).same]
  rw [← controllers]
  unfold boot
  change Unmoved (driveInit b f).2 _ ∧ _
  generalize (driveInit b f).2 = f
  dsimp only
  have sonars : Unmoved f (if b.sonar then (sonarInit f).2 else f) ∧
      (if b.sonar then (sonarInit f).2 else f).jointControllers = f.jointControllers := by
    split
    · exact ⟨sonarInitUnmoved f, rfl⟩
    · exact ⟨.refl f, rfl⟩
  generalize (if b.sonar then (sonarInit f).2 else f) = g at sonars
  have zeroed : Unmoved g { g with globalSeq := 0 } := ⟨⟨fun _ => Or.inl rfl, fun _ _ => rfl, fun _ _ _ => rfl⟩, rfl⟩
  have app : (commInit b.sonar buffers ⟨base, memory, { g with globalSeq := 0 }⟩).outside.app = { g with globalSeq := 0 } :=
    (installAllOutside (packets b.sonar buffers)
      (DeferredPacketHandler.initializeHandler ⟨base, memory, { g with globalSeq := 0 }⟩)).1
  generalize commInit b.sonar buffers ⟨base, memory, { g with globalSeq := 0 }⟩ = m at app
  have counted : Unmoved m.outside.app (setWatchdogCount m.outside.app (watchdogCycles m.outside.app)) :=
    setUnmoved _ _ (by decide)
  refine ⟨(sonars.1.trans zeroed).trans ?_, ?_⟩
  · rw [← app]
    exact counted.trans (setUnmoved (g := .stringMessage) _ _ (by decide))
  · change m.outside.app.jointControllers = _
    rw [app]
    exact sonars.2

/- The joints are bound before the drive is bound to them the last time. -/
theorem bootSeated {buffers : PacketBuffers} {base : PacketHandler PacketType} {memory eeprom : Memory}
    (bound : Bound (boot b buffers base memory eeprom).app)
    (stored : load32 eeprom protocolVersionOffset = orazioProtocolVersion → IndicesExist eeprom driveParamOffset) :
    Seated (boot b buffers base memory eeprom).app := by
  have params := paramInitSupplied b (fun _ => rfl) (powerOnIndices b eeprom) fun same =>
    stored (same.trans (powerOnVersion b eeprom))
  have joints := (jointsInitEnds b (paramInit b (powerOn b eeprom))).only.unmoved.stays.supplied params
  obtain ⟨rest, controllers⟩ := bootUnmoved b buffers base memory eeprom
  have boundThen : Bound (jointsInit b (paramInit b (powerOn b eeprom))).2 := fun i inside => by
    rw [← controllers]
    exact bound i inside
  have unbinding := (driveInitOnly b (jointsInit b (paramInit b (powerOn b eeprom))).2).unbinding
  have initialised : Seated (driveInit b (jointsInit b (paramInit b (powerOn b eeprom))).2).2 :=
    ⟨joints.kept unbinding, unbinding.bound boundThen, driveInitOnJoints joints boundThen⟩
  exact initialised.stays rest.stays

theorem driveStaysOnJoints {buffers : PacketBuffers} {base : PacketHandler PacketType} {memory eeprom : Memory} {turns : List Turn}
    (bound : Bound (boot b buffers base memory eeprom).app)
    (stored : load32 eeprom protocolVersionOffset = orazioProtocolVersion → IndicesExist eeprom driveParamOffset)
    (names : Each (loopTurn b) (fun s turn => handles b s turn = true → NamesJoints b s turn)
      (boot b buffers base memory eeprom) turns) :
    Each (loopTurn b) (fun s turn => handles b s turn = true → UsesJoints b s turn) (boot b buffers base memory eeprom) turns := by
  have steps : ∀ s turn, Tabled b.sonar s.machine ∧ Seated s.app → (handles b s turn = true → NamesJoints b s turn) →
      Tabled b.sonar (loopTurn b s turn).machine ∧ Seated (loopTurn b s turn).app := fun s turn inv names =>
    ⟨loopTurnTabled inv.1 fun handled => (names handled).valid, inv.2.stays (loopTurnStays inv.1 names)⟩
  exact names.under steps (fun s turn inv names handled => seatedUses inv.1 inv.2 (names handled))
    ⟨bootTabled b buffers base memory eeprom, bootSeated bound stored⟩

end Runs

/- Drive parameters that name two joints. -/
def drivePacket (left right : UInt8) : List UInt8 := (initialBytes bench .driveParams).take 36 ++ [right, left]

def driveLoadPacket : List UInt8 := [paramControlPacketId, sizeofParamControlPacket, 3, 0, paramLoadAction, paramDrive, 0]

/- The wheels are swapped, and the parameters of the EEPROM come back. -/
theorem swappedOnJoints : Each (loopTurn bench) (fun s turn => handles bench s turn = true → UsesJoints bench s turn) booted
    [tickedTurn 2 [drivePacket 0 1, driveLoadPacket]] :=
  @driveStaysOnJoints _ bench buffers _ _ _ [tickedTurn 2 [drivePacket 0 1, driveLoadPacket]] (by decide +kernel)
    (fun same => absurd same (by decide)) ⟨fun _ => ⟨by decide +kernel, by decide +kernel⟩, trivial⟩

/- A third joint is no error. -/
theorem thirdJointDriven : ¬ Each (loopTurn bench) (fun s turn => handles bench s turn = true → UsesJoints bench s turn) booted
    [tickedTurn 2 [drivePacket 2 1]] := by
  rintro ⟨uses, -⟩
  have refuses := (uses (by decide +kernel)).refused [] 0x340 [] (by decide +kernel) (by decide +kernel) (by decide +kernel)
  exact absurd refuses.1 (by decide +kernel)

end OrazioLogger.Firmware
