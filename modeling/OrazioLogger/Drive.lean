import OrazioLogger.JointsInitialised

/-! orazio_drive_internal.c, orazio_drive.c and orazio_sonar.c. -/
namespace OrazioLogger.Firmware
open ByteMemory OrazioPackets
open OrazioClient (load16 load32 store16 store32 store32Outside)

variable {F : Type}

/-! The differential drive. -/

section Arithmetic
variable (fl : Floats F)

/- `n/d` as a literal. -/
def literal (n : Int) (d : Int) : F := fl.div (fl.ofInt n) (fl.ofInt d)

def cosCoeffs : List F :=
  [fl.ofInt 0, literal fl 1 2, fl.ofInt 0, literal fl (-1) 24, fl.ofInt 0, literal fl 1 720]

def sinCoeffs : List F :=
  [fl.ofInt 1, fl.ofInt 0, literal fl (-1) 6, fl.ofInt 0, literal fl 1 120, fl.ofInt 0]

/- sin(theta)/theta and (1-cos(theta))/theta by their Taylor expansions: one turn of the loop over the terms. -/
def thetaTerm (theta : F) (terms : F × F × F) (i : Nat) : F × F × F :=
  let (sinTerm, cosTerm, thetaAcc) := terms
  if i % 2 = 1 then
    (sinTerm, fl.add cosTerm (fl.mul thetaAcc ((cosCoeffs fl).getD i (fl.ofInt 0))), fl.mul thetaAcc theta)
  else (fl.add sinTerm (fl.mul thetaAcc ((sinCoeffs fl).getD i (fl.ofInt 0))), cosTerm, fl.mul thetaAcc theta)

def computeThetaTerms (theta : F) : F × F :=
  let (sinTerm, cosTerm, _) := (List.range 6).foldl (thetaTerm fl theta) (fl.ofInt 0, fl.ofInt 0, fl.ofInt 1)
  (sinTerm, cosTerm)

def clampFloat (value threshold : F) : F :=
  if fl.lt threshold value then threshold
  else if fl.lt value (fl.neg threshold) then fl.neg threshold
  else value

/- The new odometry and the measured velocities. -/
def odometry (ctr : DifferentialDriveController F) (x y theta : F) (leftTicks rightTicks : Int) : F × F × F × F × F :=
  if leftTicks ≠ 0 ∨ rightTicks ≠ 0 then
    let deltaL := fl.mul ctr.kl (fl.ofInt leftTicks)
    let deltaR := fl.mul ctr.kr (fl.ofInt rightTicks)
    let deltaPlus := fl.add deltaR deltaL
    let deltaMinus := fl.sub deltaR deltaL
    let dth := fl.mul deltaMinus ctr.ibaseline
    let (sinTerm, cosTerm) := computeThetaTerms fl dth
    let dx := fl.mul (fl.mul (literal fl 1 2) deltaPlus) sinTerm
    let dy := fl.mul (fl.mul (literal fl 1 2) deltaPlus) cosTerm
    let s := fl.sin theta
    let c := fl.cos theta
    let x := fl.add x (fl.sub (fl.mul c dx) (fl.mul s dy))
    let y := fl.add y (fl.add (fl.mul s dx) (fl.mul c dy))
    let theta := fl.add theta dth
    let turn := fl.mul (fl.ofInt 2) fl.pi
    let theta := if fl.lt fl.pi theta then fl.sub theta turn
      else if fl.lt theta (fl.neg fl.pi) then fl.add theta turn
      else theta
    (x, y, theta, fl.mul (fl.mul (literal fl 1 2) deltaPlus) ctr.idt, fl.mul dth ctr.idt)
  else (x, y, theta, fl.ofInt 0, fl.ofInt 0)

/- The velocities adjusted to the limits on acceleration and on velocity. -/
def adjusted (ctr : DifferentialDriveController F) (maxTranslationalBrake maxTranslationalVelocity maxRotationalVelocity
    desTv desRv tvm rvm : F) : F × F :=
  let maxDtv := if fl.eq desTv (fl.ofInt 0) then maxTranslationalBrake else ctr.maxDtv
  let tv := fl.add tvm (clampFloat fl (fl.sub desTv tvm) maxDtv)
  let rv := fl.add rvm (clampFloat fl (fl.sub desRv rvm) ctr.maxDrv)
  (clampFloat fl tv maxTranslationalVelocity, clampFloat fl rv maxRotationalVelocity)

/- The speeds of the left and of the right joint. -/
def jointVelocities (ctr : DifferentialDriveController F) (baseline tv rv : F) : F × F :=
  let d2p := fl.mul tv ctr.jointsDt
  let d2m := fl.mul (fl.mul (fl.mul (literal fl 1 2) baseline) rv) ctr.jointsDt
  (fl.mul ctr.ikl (fl.sub d2p d2m), fl.mul ctr.ikr (fl.add d2p d2m))

end Arithmetic

section Drive
variable (b : Board F)

def getFloat (f : State F) (g : Global) (offset : Nat) : F := b.floats.ofBits (load32 (f.globals g) offset)

def setFloat (f : State F) (g : Global) (offset : Nat) (v : F) : State F :=
  f.set g (store32 (f.globals g) offset (b.floats.toBits v))

/- The encoder a status pointer leads to. -/
def encoderOf (f : State F) (status : Option Nat) : UInt16 × State F :=
  match status with
  | some i => (encoderPosition f i, f)
  | none => (0, f.faulted)

def setPose (x y theta : F) (f : State F) : State F :=
  let f := setFloat b f .driveStatus 4 x
  let f := setFloat b f .driveStatus 8 y
  setFloat b f .driveStatus 12 theta

def driveControllerReset (x y theta : F) (f : State F) : State F :=
  let zero := b.floats.ofInt 0
  let f := setPose b x y theta f
  let f := setFloat b f .driveStatus 16 zero
  let f := setFloat b f .driveStatus 20 zero
  let f := setFloat b f .driveStatus 32 zero
  let f := setFloat b f .driveStatus 36 zero
  let f := setFloat b f .driveStatus 24 zero
  let f := setFloat b f .driveStatus 28 zero
  let (left, f) := encoderOf f f.driveController.statusLeft
  let (right, f) := encoderOf f f.driveController.statusRight
  { f with driveController := { f.driveController with
      encoderLeftPrevious := left.toNat, encoderRightPrevious := right.toNat } }

/- The assignments of `DifferentialDriveController_init`; the reset follows. -/
def driveControllerBind (left right : JointController) (dt jointsDt : F) (f : State F) : State F :=
  let fl := b.floats
  let param := getFloat b f .driveParams
  { f with driveController := { f.driveController with
    bound := true
    statusLeft := left.status
    statusRight := right.status
    controlLeft := left.control
    controlRight := right.control
    dt := dt
    idt := fl.div (fl.ofInt 1) dt
    jointsDt := jointsDt
    ikr := param 4
    ikl := param 8
    kr := fl.div (fl.ofInt 1) (param 4)
    kl := fl.div (fl.ofInt 1) (param 8)
    baseline := param 12
    ibaseline := fl.div (fl.ofInt 1) (param 12)
    maxDtv := fl.mul (param 20) dt
    maxDrv := fl.mul (param 32) dt } }

def driveControllerInit (left right : JointController) (dt jointsDt : F) (f : State F) : State F :=
  let zero := b.floats.ofInt 0
  driveControllerReset b zero zero zero (driveControllerBind b left right dt jointsDt f)

/- `joint_controllers+i`; behind the table the pointers are unknown. -/
def controllerAt (f : State F) (i : UInt8) : JointController × State F :=
  if i.toNat < numJoints then (f.jointControllers i.toNat, f) else (.zeroed, f.faulted)

def driveInitController (f : State F) : State F :=
  let fl := b.floats
  let (left, f) := controllerAt f (leftJointIndex f)
  let (right, f) := controllerAt f (rightJointIndex f)
  let period := fl.mul (literal fl 1 1000) (fl.ofInt (timerPeriodMs f))
  driveControllerInit b left right (fl.mul period (fl.ofInt (commCycles f).toNat)) period f

def driveInit (f : State F) : PacketStatus × State F :=
  let f := driveInitController b f
  (.success, { f with lastDriveControlSeq := driveControlSeq f })

/- `DifferentialDriveController_update`. -/
def setVelocities (tvm rvm desTv desRv tva rva : F) (f : State F) : State F :=
  let f := setFloat b f .driveStatus 16 tvm
  let f := setFloat b f .driveStatus 20 rvm
  let f := setFloat b f .driveStatus 24 desTv
  let f := setFloat b f .driveStatus 28 desRv
  let f := setFloat b f .driveStatus 32 tva
  setFloat b f .driveStatus 36 rva

/- The part of the update that follows the reading of the encoders. -/
def driveAdvance (encoderRight encoderLeft : UInt16) (f : State F) : State F :=
  let fl := b.floats
  let ctr := f.driveController
  let leftTicks := toInt16 (encoderLeft.toNat - ctr.encoderLeftPrevious)
  let rightTicks := toInt16 (encoderRight.toNat - ctr.encoderRightPrevious)
  let ctr := { ctr with encoderRightPrevious := encoderRight.toNat, encoderLeftPrevious := encoderLeft.toNat }
  let status := getFloat b f .driveStatus
  let (x, y, theta, tvm, rvm) := odometry fl ctr (status 4) (status 8) (status 12) leftTicks rightTicks
  let desTv := getFloat b f .driveControl 4
  let desRv := getFloat b f .driveControl 8
  let param := getFloat b f .driveParams
  let (tva, rva) := adjusted fl ctr (param 24) (param 16) (param 28) desTv desRv tvm rvm
  setVelocities b tvm rvm desTv desRv tva rva (setPose b x y theta { f with driveController := ctr })

def driveUpdate (f : State F) : State F :=
  let f := if f.driveController.bound then f else f.faulted
  let (encoderRight, f) := encoderOf f f.driveController.statusRight
  let (encoderLeft, f) := encoderOf f f.driveController.statusLeft
  driveAdvance b encoderRight encoderLeft f

def setJointSpeed (f : State F) (control : Option Nat) (speed : Int) : State F :=
  match control with
  | some i => setWord f .jointControl (jointControlAt i + 5) (ofInt16 speed)
  | none => f.faulted

def setJointMode (f : State F) (control : Option Nat) (mode : UInt8) : State F :=
  match control with
  | some i => setByte f .jointControl (jointControlAt i + 7) mode
  | none => f.faulted

def driveControllerControl (f : State F) : State F :=
  let fl := b.floats
  let ctr := f.driveController
  let (jlv, jrv) := jointVelocities fl ctr (getFloat b f .driveParams 12) (getFloat b f .driveStatus 32)
    (getFloat b f .driveStatus 36)
  let f := setJointSpeed f ctr.controlLeft (fl.toInt16 jlv)
  let f := setJointSpeed f ctr.controlRight (fl.toInt16 jrv)
  let f := setJointMode f ctr.controlLeft jointPid
  setJointMode f ctr.controlRight jointPid

/- `Orazio_driveControl`: a command with a new number enables the drive. -/
def recogniseCommand (f : State F) : State F :=
  if f.lastDriveControlSeq ≠ driveControlSeq f then
    { setByte f .driveStatus 40 1 with lastDriveControlSeq := driveControlSeq f }
  else f

def driveControl (f : State F) : State F :=
  let f := recogniseCommand f
  if enabled f ≠ 0 then driveControllerControl b f else f

end Drive

/-! What the drive can change besides the control of its joints. -/

def OdometryWritten (g : Global) (a : Nat) : Prop := g = .driveStatus ∧ 4 ≤ a ∧ a < 40

structure DriveOnly (f later : State F) : Prop where
  same : later = { f with
    globals := later.globals, driveController := later.driveController
    lastDriveControlSeq := later.lastDriveControlSeq, fault := later.fault }
  globals : SameOutside OdometryWritten f later

section Only
variable {b : Board F} {f mid later : State F}

theorem DriveOnly.refl (f : State F) : DriveOnly f f := ⟨rfl, .refl f⟩

theorem DriveOnly.trans (first : DriveOnly f mid) (second : DriveOnly mid later) : DriveOnly f later := by
  refine ⟨?_, first.globals.trans second.globals⟩
  rw [second.same, first.same]

theorem setFloatOnly {offset : Nat} (v : F) (low : 4 ≤ offset) (high : offset + 4 ≤ 40) :
    DriveOnly f (setFloat b f .driveStatus offset v) := by
  refine ⟨rfl, (SameOutside.refl f).set fun a outside => ?_⟩
  exact store32Outside _ fun inside => outside ⟨rfl, le_trans low inside.1, lt_of_lt_of_le inside.2 high⟩

theorem encoderOfOnly (status : Option Nat) : DriveOnly f (encoderOf f status).2 := by
  cases status with
  | none => exact ⟨rfl, .refl f⟩
  | some i => exact .refl f

theorem controllerAtOnly (i : UInt8) : DriveOnly f (controllerAt f i).2 := by
  unfold controllerAt
  split
  · exact .refl f
  · exact ⟨rfl, .refl f⟩

theorem setPoseOnly (x y theta : F) : DriveOnly f (setPose b x y theta f) := by
  unfold setPose
  refine .trans ?_ (setFloatOnly _ (by decide) (by decide))
  refine .trans ?_ (setFloatOnly _ (by decide) (by decide))
  exact setFloatOnly _ (by decide) (by decide)

theorem setVelocitiesOnly (tvm rvm desTv desRv tva rva : F) :
    DriveOnly f (setVelocities b tvm rvm desTv desRv tva rva f) := by
  unfold setVelocities
  refine .trans ?_ (setFloatOnly _ (by decide) (by decide))
  refine .trans ?_ (setFloatOnly _ (by decide) (by decide))
  refine .trans ?_ (setFloatOnly _ (by decide) (by decide))
  refine .trans ?_ (setFloatOnly _ (by decide) (by decide))
  refine .trans ?_ (setFloatOnly _ (by decide) (by decide))
  exact setFloatOnly _ (by decide) (by decide)

theorem driveControllerResetOnly (x y theta : F) : DriveOnly f (driveControllerReset b x y theta f) := by
  unfold driveControllerReset
  refine .trans ?_ ⟨rfl, .refl _⟩
  refine .trans ?_ (encoderOfOnly _)
  refine .trans ?_ (encoderOfOnly _)
  refine .trans ?_ (setFloatOnly _ (by decide) (by decide))
  refine .trans ?_ (setFloatOnly _ (by decide) (by decide))
  refine .trans ?_ (setFloatOnly _ (by decide) (by decide))
  refine .trans ?_ (setFloatOnly _ (by decide) (by decide))
  refine .trans ?_ (setFloatOnly _ (by decide) (by decide))
  refine .trans ?_ (setFloatOnly _ (by decide) (by decide))
  exact setPoseOnly x y theta

theorem DriveOnly.controlSeq (only : DriveOnly f later) : driveControlSeq later = driveControlSeq f :=
  only.globals.word (fun touched => nomatch touched.1) fun touched => nomatch touched.1

theorem DriveOnly.enabled (only : DriveOnly f later) : enabled later = enabled f :=
  only.globals .driveStatus 40 fun touched => absurd touched.2.2 (by decide)

theorem driveInitControllerOnly (b : Board F) (f : State F) : DriveOnly f (driveInitController b f) := by
  unfold driveInitController driveControllerInit
  refine .trans ?_ (driveControllerResetOnly _ _ _)
  refine .trans ?_ ⟨rfl, .refl _⟩
  exact (controllerAtOnly _).trans (controllerAtOnly _)

theorem driveInitOnly (b : Board F) (f : State F) : DriveOnly f (driveInit b f).2 :=
  (driveInitControllerOnly b f).trans ⟨rfl, .refl _⟩

/- The command there is when the drive is initialised is no longer a new one. -/
theorem driveInitSeq (b : Board F) (f : State F) : (driveInit b f).2.lastDriveControlSeq = driveControlSeq f :=
  (driveInitControllerOnly b f).controlSeq

theorem driveAdvanceOnly (encoderRight encoderLeft : UInt16) : DriveOnly f (driveAdvance b encoderRight encoderLeft f) := by
  unfold driveAdvance
  dsimp only
  refine .trans ?_ (setVelocitiesOnly _ _ _ _ _ _)
  refine .trans ?_ (setPoseOnly _ _ _)
  exact ⟨rfl, .refl _⟩

theorem setVelocitiesSeq (tvm rvm desTv desRv tva rva : F) :
    (setVelocities b tvm rvm desTv desRv tva rva f).lastDriveControlSeq = f.lastDriveControlSeq := rfl

theorem driveAdvanceSeq (encoderRight encoderLeft : UInt16) :
    (driveAdvance b encoderRight encoderLeft f).lastDriveControlSeq = f.lastDriveControlSeq := by
  unfold driveAdvance
  dsimp only
  rw [setVelocitiesSeq]
  rfl

theorem driveUpdateOnly (b : Board F) (f : State F) : DriveOnly f (driveUpdate b f) := by
  unfold driveUpdate
  refine .trans ?_ (driveAdvanceOnly _ _)
  refine .trans ?_ (encoderOfOnly _)
  refine .trans ?_ (encoderOfOnly _)
  split
  · exact .refl f
  · exact ⟨rfl, .refl f⟩

theorem encoderOfSeq (status : Option Nat) : (encoderOf f status).2.lastDriveControlSeq = f.lastDriveControlSeq := by
  cases status <;> rfl

theorem driveUpdateSeq (b : Board F) (f : State F) : (driveUpdate b f).lastDriveControlSeq = f.lastDriveControlSeq := by
  unfold driveUpdate
  rw [driveAdvanceSeq, encoderOfSeq, encoderOfSeq]
  split <;> rfl

end Only

/-! The sonars. -/

def sonarPattern (f : State F) (s : Nat) : UInt8 := f.globals .sonarParams (4 + s)

def sonarInit (f : State F) : PacketStatus × State F :=
  let most := (List.range sonarsNum).foldl (fun most s => if most < sonarPattern f s then sonarPattern f s else most) 0
  (.success, { f with sonarMaxCycle := most, sonarCurrentCycle := 0, sonarReady := false })

def sonarMask (f : State F) : UInt8 :=
  (List.range sonarsNum).foldl (fun mask s =>
    if sonarPattern f s = 0 then mask
    else if sonarPattern f s = f.sonarCurrentCycle then mask ||| (1 <<< UInt8.ofNat s)
    else mask) 0

/- `Orazio_sonarHandle`; `ranges` is what `Sonar_get` returns. -/
def sonarHandle (ranges : Nat → UInt16) (f : State F) : State F :=
  let f := { f with sonarReady := false, sonarCurrentCycle := f.sonarCurrentCycle + 1 }
  if f.sonarCurrentCycle > f.sonarMaxCycle then { f with sonarCurrentCycle := 0 }
  else if sonarMask f = 0 then f
  else
    let f := (List.range sonarsNum).foldl (fun f s => setWord f .sonarStatus (4 + 2 * s) (ranges s)) f
    { f with sonarReady := true, sonarPolls := f.sonarPolls ++ [sonarMask f] }

end OrazioLogger.Firmware
