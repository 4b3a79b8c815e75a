import OrazioLogger.Odometry

/-! Which joint controllers are bound: after the joints are initialised, and when the drive is while the firmware starts. -/
namespace OrazioLogger.Firmware
open ByteMemory OrazioPackets Countdown
open OrazioClient (load32 store32)

variable {F : Type}

/-! The loop of `Orazio_jointsInit`. -/

section Joints
variable {b : Board F} {f : State F} {i j : Nat}

theorem jointInitControllers (b : Board F) (i : Nat) (f : State F) : (jointInit b i f).2.jointControllers =
    Function.update f.jointControllers i (jointControllerInit i .zeroed) := by
  obtain ⟨mid, only, ended⟩ := (jointInitialised b i f).changed
  have reset : mid.jointControllers = Function.update f.jointControllers i (jointControllerInit i .zeroed) := by
    rw [only.same]
    rfl
  rcases ended with same | ⟨k, -, c, same⟩
  · rw [same, reset]
  · rw [same, ← reset]
    rfl

theorem jointInitFails (b : Board F) (i : Nat) (f : State F) :
    (jointInit b i f).1.code < 0 ↔ jointAccepted b f i = false := by
  have outcome := (jointInitialised b i f).outcome
  cases accepted : jointAccepted b f i with
  | true =>
    rw [accepted, if_pos rfl] at outcome
    rw [outcome]
    decide
  | false =>
    rw [accepted, if_neg Bool.false_ne_true] at outcome
    rcases outcome with r | r <;> rw [r] <;> decide

/- Joint `j` is reached from joint `i` if no bridge in between is refused. -/
def Reached (b : Board F) (f : State F) (i left j : Nat) : Prop :=
  i ≤ j ∧ j < i + left ∧ ∀ k, i ≤ k → k < j → jointAccepted b f k = true

theorem reachedFirst (b : Board F) (f : State F) (i left : Nat) : Reached b f i (left + 1) i :=
  ⟨le_refl i, by omega, fun k low high => by omega⟩

theorem reachedBehind (other : j ≠ i) (left : Nat) : Reached b f i (left + 1) j ↔
    jointAccepted b f i = true ∧ Reached b (jointInit b i f).2 (i + 1) left j := by
  constructor
  · rintro ⟨low, high, all⟩
    refine ⟨all i (le_refl i) (by omega), by omega, by omega, fun k above below => ?_⟩
    rw [jointAcceptedKept b f (by omega)]
    exact all k (by omega) below
  · rintro ⟨first, low, high, rest⟩
    refine ⟨by omega, by omega, fun k above below => ?_⟩
    by_cases here : k = i
    · rw [here, first]
    · rw [← jointAcceptedKept b f here]
      exact rest k (by omega) below

/- Those that are reached are bound anew, the others stay. -/
theorem loopControllers (b : Board F) (i left : Nat) (f : State F) (j : Nat) :
    (Reached b f i left j → (jointsInitLoop b i f left).2.jointControllers j = jointControllerInit j .zeroed) ∧
      (¬ Reached b f i left j → (jointsInitLoop b i f left).2.jointControllers j = f.jointControllers j) := by
  induction left generalizing i f with
  | zero => exact ⟨fun reached => absurd reached.2.1 (by have := reached.1; omega), fun _ => rfl⟩
  | succ left ih =>
    have here := jointInitControllers b i f
    unfold jointsInitLoop
    dsimp only
    by_cases same : j = i
    · subst same
      refine ⟨fun _ => ?_, fun missed => absurd (reachedFirst b f j left) missed⟩
      split
      · rw [here, Function.update_self]
      · rw [(ih (j + 1) (jointInit b j f).2).2 fun reached => by have := reached.1; omega, here, Function.update_self]
    · have kept : (jointInit b i f).2.jointControllers j = f.jointControllers j := by rw [here, Function.update_of_ne same]
      rw [reachedBehind same]
      split
      · rename_i failed
        have refused := (jointInitFails b i f).mp failed
        exact ⟨fun reached => absurd reached.1 (by rw [refused]; decide), fun _ => kept⟩
      · rename_i passed
        have accepted : jointAccepted b f i = true := by
          rw [jointInitFails, Bool.not_eq_false] at passed
          exact passed
        obtain ⟨anew, stays⟩ := ih (i + 1) (jointInit b i f).2
        exact ⟨fun reached => anew reached.2, fun missed => (stays fun reached => missed ⟨accepted, reached⟩).trans kept⟩

/-! The timer's use of the joints. -/

theorem handleFault (bound : JointBound f i) (enc : UInt16) : (jointControllerHandle enc i f).fault = f.fault := by
  rw [handleBound bound]
  dsimp only
  split
  · rfl
  split
  · rfl
  split <;> rfl

theorem handlesFault (encoders : Nat → UInt16) (is : List Nat) (inside : ∀ i ∈ is, i < numJoints)
    (bound : ∀ i < numJoints, JointBound f i) :
    (is.foldl (fun f i => jointControllerHandle (encoders i) i f) f).fault = f.fault := by
  induction is generalizing f with
  | nil => rfl
  | cons i rest ih =>
    have own := bound i (inside i List.mem_cons_self)
    rw [List.foldl_cons, ih (fun j later => inside j (List.mem_cons_of_mem i later))
      fun j small => (bound j small).kept (handleOwned own _ j)]
    exact handleFault own _

theorem jointsHandleFault (b : Board F) (encoders : Nat → UInt16) (bound : ∀ i < numJoints, JointBound f i) :
    (jointsHandle b encoders f).fault = f.fault := by
  have driven : ∀ (is : List Nat) (f : State F),
      (is.foldl (fun f i => (hBridgeSetSpeed b i (f.jointControllers i).output f).2) f).fault = f.fault := by
    intro is
    induction is with
    | nil => exact fun _ => rfl
    | cons i rest ih =>
      intro f
      have one := (hBridgeSetSpeedOnly (b := b) i (f.jointControllers i).output f).same
      rw [List.foldl_cons, ih, one]
  unfold jointsHandle
  rw [driven]
  exact handlesFault encoders _ (fun i listed => List.mem_range.mp listed) bound

/- `Orazio_jointsInit` leaves every controller bound to its entries, so that the timer's use of them is safe. -/
def LeavesBound (b : Board F) (f : State F) : Prop :=
  (∀ i < numJoints, JointBound (jointsInit b f).2 i) ∧
    ∀ encoders, (jointsHandle b encoders (jointsInit b f).2).fault = (jointsInit b f).2.fault

/- It does for the joints up to the first one whose bridge is refused. -/
theorem leavesBoundIff (b : Board F) (f : State F) :
    LeavesBound b f ↔ ∀ i < numJoints, JointBound f i ∨ ∀ j < i, jointAccepted b f j = true := by
  have bound : ∀ i < numJoints, JointBound (jointsInit b f).2 i ↔ JointBound f i ∨ ∀ j < i, jointAccepted b f j = true := by
    intro i inside
    obtain ⟨anew, stays⟩ := loopControllers b 0 numJoints f i
    have reached : Reached b f 0 numJoints i ↔ ∀ j < i, jointAccepted b f j = true :=
      ⟨fun reached j below => reached.2.2 j (Nat.zero_le j) below, fun all => ⟨Nat.zero_le i, by omega, fun j _ => all j⟩⟩
    by_cases through : ∀ j < i, jointAccepted b f j = true
    · refine iff_of_true ?_ (Or.inr through)
      have now : (jointsInit b f).2.jointControllers i = _ := anew (reached.mpr through)
      constructor <;> rw [now] <;> rfl
    · have same : (jointsInit b f).2.jointControllers i = f.jointControllers i := stays fun here => through (reached.mp here)
      rw [or_iff_left through]
      exact ⟨fun own => own.kept (by rw [same]), fun own => own.kept (by rw [same])⟩
  constructor
  · exact fun leaves i inside => (bound i inside).mp (leaves.1 i inside)
  · intro all
    have each : ∀ i < numJoints, JointBound (jointsInit b f).2 i := fun i inside => (bound i inside).mpr (all i inside)
    exact ⟨each, fun encoders => jointsHandleFault b encoders each⟩

end Joints

/- An unknown type for the first bridge, before anything is initialised: the second joint is not reached. -/
def unknownBridge : State Rat := setByte (powerOn bench fun _ => 0xFF) .jointParams (jointParam 0 + 21) 7

theorem secondJointUnbound : (jointsInit bench unknownBridge).1 = .unknownType ∧
    ((jointsInit bench unknownBridge).2.jointControllers 1).status = none ∧ (jointsInit bench unknownBridge).2.fault = false ∧
      (jointsHandle bench (fun _ => 0) (jointsInit bench unknownBridge).2).fault = true ∧ ¬ LeavesBound bench unknownBridge := by
  have unbound : ((jointsInit bench unknownBridge).2.jointControllers 1).status = none := by decide +kernel
  refine ⟨by decide +kernel, unbound, by decide +kernel, by decide +kernel, fun leaves => ?_⟩
  cases unbound.symm.trans (leaves.1 1 (by decide)).status

/-! The calls of `main` that can initialise the drive, in their order. -/

inductive BootCall where
  | paramLoad (paramType : UInt8) (index : Int)
  | setVersions (cpv cfv : UInt32)
  | jointsInit
  | driveInit
  deriving DecidableEq, Repr

def bootStep (b : Board F) (f : State F) : BootCall → State F
  | .paramLoad paramType index => (paramLoad b paramType index f).2
  | .setVersions cpv cfv => f.set .systemParams (store32 (store32 (f.globals .systemParams) 4 cpv) 8 cfv)
  | .jointsInit => (jointsInit b f).2
  | .driveInit => (driveInit b f).2

/- The state in which a call comes to `Orazio_driveInit`, if it does. -/
def drivenFrom (f : State F) : BootCall → Option (State F)
  | .paramLoad paramType _ =>
    if paramType = paramSystem then some (eepromRead f .systemParams 0 systemParamOffset sizeofSystemParamPacket.toNat)
    else if paramType = paramDrive then
      some (eepromRead f .driveParams 0 driveParamOffset sizeofDifferentialDriveParamPacket.toNat)
    else none
  | .setVersions _ _ => none
  | .jointsInit => none
  | .driveInit => some f

/- The first half of `Orazio_paramInit`: defaults are saved over parameters of another version. -/
def saveDefaults (b : Board F) (f : State F) : State F :=
  if load32 f.eeprom protocolVersionOffset ≠ load32 (f.globals .systemParams) 4 then
    let f := eepromWrite f protocolVersionOffset .systemParams 4 4
    let f := eepromWrite f firmwareVersionOffset .systemParams 8 4
    eachParam b (fun paramType index f => (paramSave b paramType index f).2) f
  else f

/- The classes of parameters, in the order of `Orazio_paramInit`. -/
def paramClasses (b : Board F) : List (UInt8 × Int) :=
  (paramSystem, -1) :: (List.range numJoints).map (fun i : Nat => (paramJointsSingle, (i : Int))) ++
    (paramDrive, -1) :: if b.sonar then [(paramSonar, -1)] else []

def bootCalls (b : Board F) (cpv cfv : UInt32) : List BootCall :=
  (paramClasses b).map (fun c => .paramLoad c.1 c.2) ++ [.setVersions cpv cfv, .jointsInit, .driveInit]

/- What `DifferentialDriveController_init` and its reset take from the two joint controllers is there. -/
def ReceivesJoints (f : State F) : Prop :=
  let left := (controllerAt f (leftJointIndex f)).1
  let right := (controllerAt f (rightJointIndex f)).1
  left.status ≠ none ∧ left.control ≠ none ∧ right.status ≠ none ∧ right.control ≠ none

instance (f : State F) : Decidable (ReceivesJoints f) := by unfold ReceivesJoints; infer_instance

def BootSafe (b : Board F) (eeprom : Memory) : Prop :=
  Each (bootStep b) (fun f call => ∀ g ∈ drivenFrom f call, ReceivesJoints g) (saveDefaults b (powerOn b eeprom))
    (bootCalls b (load32 eeprom protocolVersionOffset) (load32 eeprom firmwareVersionOffset))

section Boot
variable {b : Board F} {f : State F}

theorem eachParamClasses (b : Board F) (one : UInt8 → Int → State F → State F) (f : State F) :
    eachParam b one f = (paramClasses b).foldl (fun f c => one c.1 c.2 f) f := by
  unfold eachParam paramClasses
  dsimp only
  split <;> rfl

theorem paramInitHalves (b : Board F) (f : State F) : paramInit b f =
    bootStep b (eachParam b (fun paramType index f => (paramLoad b paramType index f).2) (saveDefaults b f))
      (.setVersions (load32 f.eeprom protocolVersionOffset) (load32 f.eeprom firmwareVersionOffset)) := by
  unfold paramInit bootStep saveDefaults
  rfl

/- The calls are those of `main`. -/
theorem bootRuns (b : Board F) (f : State F) : (driveInit b (jointsInit b (paramInit b f)).2).2 =
    (bootCalls b (load32 f.eeprom protocolVersionOffset) (load32 f.eeprom firmwareVersionOffset)).foldl (bootStep b)
      (saveDefaults b f) := by
  rw [bootCalls, List.foldl_append, List.foldl_map, paramInitHalves, eachParamClasses]
  rfl

/- Where a call comes to `Orazio_driveInit`, that is the end of it. -/
theorem drivenCall {call : BootCall} {g : State F} (driven : drivenFrom f call = some g) :
    bootStep b f call = (driveInit b g).2 := by
  cases call with
  | paramLoad paramType index =>
    by_cases system : paramType = paramSystem
    · rw [drivenFrom, if_pos system] at driven
      cases driven
      rw [bootStep, paramLoad, if_pos system, paramSet, if_pos system]
    rw [drivenFrom, if_neg system] at driven
    by_cases drive : paramType = paramDrive
    · have single : ¬ paramType = paramJointsSingle := by
        rw [drive]
        decide
      rw [if_pos drive] at driven
      cases driven
      rw [bootStep, paramLoad, if_neg system, if_neg single, if_pos drive, paramSet, if_neg system, if_neg single, if_pos drive]
    · rw [if_neg drive] at driven
      cases driven
  | setVersions => cases driven
  | jointsInit => cases driven
  | driveInit =>
    cases driven
    rfl

/- The other calls leave the drive alone. -/
theorem undrivenCall {call : BootCall} (undriven : drivenFrom f call = none) :
    (bootStep b f call).driveController = f.driveController := by
  have joints : ∀ g : State F, (jointsInit b g).2.driveController = g.driveController := fun g => by
    rw [(jointsInitEnds b g).only.same]
  cases call with
  | paramLoad paramType index =>
    unfold drivenFrom at undriven
    dsimp only at undriven
    split_ifs at undriven with system drive
    unfold bootStep paramLoad paramSet checkIndex
    dsimp only
    rw [if_neg system, if_neg drive, if_neg system, if_neg drive]
    split_ifs <;> first | exact joints _ | rfl
  | setVersions => rfl
  | jointsInit => exact joints f
  | driveInit => cases undriven

theorem paramSaveControllers (b : Board F) (paramType : UInt8) (index : Int) (f : State F) :
    (paramSave b paramType index f).2.jointControllers = f.jointControllers := by
  unfold paramSave checkIndex
  split_ifs <;> rfl

theorem saveDefaultsControllers (b : Board F) (f : State F) : (saveDefaults b f).jointControllers = f.jointControllers := by
  have save := paramSaveControllers b
  unfold saveDefaults
  dsimp only
  split
  · unfold eachParam
    dsimp only
    split
    · exact (save _ _ _).trans ((save _ _ _).trans ((save _ _ _).trans ((save _ _ _).trans (save _ _ _))))
    · exact (save _ _ _).trans ((save _ _ _).trans ((save _ _ _).trans (save _ _ _)))
  · rfl

/- The load of the system parameters comes first, and finds no joint bound. -/
theorem firstLoadUnbound (b : Board F) (eeprom : Memory) (g : State F)
    (driven : drivenFrom (saveDefaults b (powerOn b eeprom)) (.paramLoad paramSystem (-1)) = some g) : ¬ ReceivesJoints g := by
  have zeroed : ∀ i, (controllerAt g i).1 = .zeroed := by
    cases driven
    intro i
    unfold controllerAt
    split
    · exact congrFun (saveDefaultsControllers b (powerOn b eeprom)) i.toNat
    · rfl
  intro receives
  exact receives.1 (by rw [zeroed]; rfl)

/- The calls are those of `main`, and it is in them that the drive is initialised. -/
structure BootTraced (b : Board F) : Prop where
  runs : ∀ f : State F, (driveInit b (jointsInit b (paramInit b f)).2).2 =
    (bootCalls b (load32 f.eeprom protocolVersionOffset) (load32 f.eeprom firmwareVersionOffset)).foldl (bootStep b)
      (saveDefaults b f)
  driven : ∀ (f g : State F) call, drivenFrom f call = some g → bootStep b f call = (driveInit b g).2
  undriven : ∀ (f : State F) call, drivenFrom f call = none → (bootStep b f call).driveController = f.driveController

theorem bootNeverSafe (b : Board F) (eeprom : Memory) : BootTraced b ∧ ¬ BootSafe b eeprom :=
  ⟨⟨bootRuns b, fun _ _ _ => drivenCall, fun _ _ => undrivenCall⟩, fun safe => firstLoadUnbound b eeprom _ rfl (safe.1 _ rfl)⟩

end Boot

/- On the bench, with nothing in the EEPROM yet: the drive is reset through null pointers. -/
theorem benchBootUnsafe : ¬ BootSafe bench (fun _ => 0xFF) ∧
    (bootStep bench (saveDefaults bench (powerOn bench fun _ => 0xFF)) (.paramLoad paramSystem (-1))).fault = true :=
  ⟨fun safe => firstLoadUnbound bench _ _ rfl (safe.1 _ rfl), by decide +kernel⟩

end OrazioLogger.Firmware
