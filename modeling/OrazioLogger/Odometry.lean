import OrazioLogger.DriveJoints
import OrazioLogger.JointControl
import OrazioLogger.ParamStore
import OrazioLogger.Support.Walks

/-! The ticks the odometry counts, against the encoder readings of the joints. -/
namespace OrazioLogger.Firmware
open ByteMemory OrazioPackets Walks
open OrazioClient (load16 load32 store16 store32 store32Outside bytesOfWord load16Store16)

variable {F : Type}

/-! Floats in the globals. -/

section Floats
variable {b : Board F} {f : State F}

theorem wordsOfLong (v : UInt32) : v.toUInt16.toUInt32 ||| ((v >>> 16).toUInt16.toUInt32 <<< 16) = v := by
  have bound : v.toNat < 2 ^ 32 := v.toNat_lt
  have high : (v.toNat >>> 16 % 2 ^ 16) <<< 16 % 2 ^ 32 = (v.toNat / 2 ^ 16) <<< 16 := by
    rw [Nat.shiftRight_eq_div_pow, Nat.mod_eq_of_lt (a := v.toNat / 2 ^ 16) (by omega), Nat.shiftLeft_eq]
    exact Nat.mod_eq_of_lt (by omega)
  apply UInt32.toNat_inj.mp
  calc (v.toUInt16.toUInt32 ||| ((v >>> 16).toUInt16.toUInt32 <<< 16)).toNat
      = v.toNat % 2 ^ 16 ||| (v.toNat >>> 16 % 2 ^ 16) <<< 16 % 2 ^ 32 := by simp
    _ = (v.toNat / 2 ^ 16) <<< 16 + v.toNat % 2 ^ 16 := by
      rw [high, Nat.or_comm, Nat.shiftLeft_add_eq_or_of_lt (Nat.mod_lt _ (by decide))]
    _ = v.toNat := by
      rw [Nat.shiftLeft_eq]
      omega

theorem load32Store32 (m : Memory) (a : Addr) (v : UInt32) : load32 (store32 m a v) a = v := by
  have low : load16 (store32 m a v) a = v.toUInt16 := by
    have apart : ∀ x : Nat, x < a + 2 → store32 m a v x = store16 m a v.toUInt16 x := fun x below =>
      (storeOther _ (Nat.ne_of_lt (Nat.lt_succ_of_lt below))).trans (storeOther _ (Nat.ne_of_lt below))
    rw [load16, apart a (by omega), apart (a + 1) (by omega)]
    exact load16Store16 _ _ _
  rw [load32, low, store32, load16Store16]
  exact wordsOfLong v

theorem setFloatBits (b : Board F) (f : State F) (g : Global) (offset : Nat) (v : F) :
    load32 ((setFloat b f g offset v).globals g) offset = b.floats.toBits v := by
  rw [setFloat, setSame, load32Store32]

theorem setFloatApart {g : Global} {offset other : Nat} (v : F) (apart : offset + 4 ≤ other ∨ other + 4 ≤ offset) :
    load32 ((setFloat b f g offset v).globals g) other = load32 (f.globals g) other := by
  rw [setFloat, setSame]
  exact load32Congr fun a inside => store32Outside _ fun written => by
    have low := inside.1
    have high := inside.2
    have low' := written.1
    have high' := written.2
    omega

end Floats

/-! The two wheels of the drive. -/

inductive Wheel where
  | left | right
  deriving DecidableEq, Repr

def wheelStatus (f : State F) : Wheel → Option Nat
  | .left => f.driveController.statusLeft
  | .right => f.driveController.statusRight

def wheelPrevious (f : State F) : Wheel → Int
  | .left => f.driveController.encoderLeftPrevious
  | .right => f.driveController.encoderRightPrevious

/- `left_ticks` and `right_ticks` of the next update. -/
def wheelTicks (f : State F) (w : Wheel) : Int := toInt16 ((encoderOf f (wheelStatus f w)).1.toNat - wheelPrevious f w)

/- The velocities measured of wheels that moved by these ticks. -/
def movedVelocities (fl : Floats F) (ctr : DifferentialDriveController F) (leftTicks rightTicks : F) : F × F :=
  let deltaL := fl.mul ctr.kl leftTicks
  let deltaR := fl.mul ctr.kr rightTicks
  let deltaPlus := fl.add deltaR deltaL
  let dth := fl.mul (fl.sub deltaR deltaL) ctr.ibaseline
  (fl.mul (fl.mul (literal fl 1 2) deltaPlus) ctr.idt, fl.mul dth ctr.idt)

/- What the next update makes of the pose, and the velocities it measures. -/
def nextOdometry (b : Board F) (f : State F) : F × F × F × F × F :=
  odometry b.floats f.driveController (getFloat b f .driveStatus 4) (getFloat b f .driveStatus 8)
    (getFloat b f .driveStatus 12) (wheelTicks f .left) (wheelTicks f .right)

section Update
variable {b : Board F} {f : State F}

theorem encoderOfReads {later : State F} (same : later.globals .jointStatus = f.globals .jointStatus) (status : Option Nat) :
    (encoderOf later status).1 = (encoderOf f status).1 := by
  cases status with
  | none => rfl
  | some i => rw [encoderOf, encoderOf, encoderPosition, encoderPosition, same]

/- One encoder is read after the other. -/
theorem encodersRead (f : State F) (first second : DifferentialDriveController F → Option Nat) :
    let later := (encoderOf f (first f.driveController)).2
    let last := encoderOf later (second later.driveController)
    last.1 = (encoderOf f (second f.driveController)).1 ∧ last.2.globals = f.globals ∧
      last.2.driveController = f.driveController := by
  cases one : first f.driveController with
  | some i => cases two : second f.driveController <;> simp [encoderOf, two, State.faulted]
  | none => cases two : second f.driveController <;> simp [encoderOf, two, State.faulted, encoderPosition]

theorem driveUpdateAdvances (b : Board F) (f : State F) : ∃ later : State F, later.globals = f.globals ∧
    later.driveController = f.driveController ∧ driveUpdate b f =
      driveAdvance b (encoderOf f (wheelStatus f .right)).1 (encoderOf f (wheelStatus f .left)).1 later := by
  obtain ⟨start, globals, controller, begins⟩ : ∃ start : State F, start.globals = f.globals ∧
      start.driveController = f.driveController ∧ (if f.driveController.bound then f else f.faulted) = start :=
    ⟨_, by split <;> rfl, by split <;> rfl, rfl⟩
  obtain ⟨left, keptGlobals, keptController⟩ := encodersRead start (·.statusRight) (·.statusLeft)
  refine ⟨_, keptGlobals.trans globals, keptController.trans controller, ?_⟩
  rw [driveUpdate, begins]
  dsimp only
  rw [left, controller, encoderOfReads (congrFun globals _), encoderOfReads (congrFun globals _)]
  rfl

/- `DifferentialDriveController_update` counts the ticks of the two wheels, each once: the odometry and the velocities
it stores are those of these ticks, and the next update counts from these readings on. -/
structure CountsTicks (b : Board F) (f : State F) : Prop where
  stored :
    let written := load32 ((driveUpdate b f).globals .driveStatus)
    let (x, y, theta, tvm, rvm) := nextOdometry b f
    written 4 = b.floats.toBits x ∧ written 8 = b.floats.toBits y ∧ written 12 = b.floats.toBits theta ∧
      written 16 = b.floats.toBits tvm ∧ written 20 = b.floats.toBits rvm
  velocities : (nextOdometry b f).2.2.2 =
    if wheelTicks f .left ≠ 0 ∨ wheelTicks f .right ≠ 0 then
      movedVelocities b.floats f.driveController (b.floats.ofInt (wheelTicks f .left)) (b.floats.ofInt (wheelTicks f .right))
    else (b.floats.ofInt 0, b.floats.ofInt 0)
  previous : ∀ w, wheelPrevious (driveUpdate b f) w = (encoderOf f (wheelStatus f w)).1.toNat

theorem odometryVelocities (fl : Floats F) (ctr : DifferentialDriveController F) (x y theta : F) (leftTicks rightTicks : Int) :
    (odometry fl ctr x y theta leftTicks rightTicks).2.2.2 =
      if leftTicks ≠ 0 ∨ rightTicks ≠ 0 then movedVelocities fl ctr (fl.ofInt leftTicks) (fl.ofInt rightTicks)
      else (fl.ofInt 0, fl.ofInt 0) := by
  unfold odometry
  split <;> rfl

theorem driveUpdateOdometry (b : Board F) (f : State F) :
    let written := load32 ((driveUpdate b f).globals .driveStatus)
    let (x, y, theta, tvm, rvm) := nextOdometry b f
    written 4 = b.floats.toBits x ∧ written 8 = b.floats.toBits y ∧ written 12 = b.floats.toBits theta ∧
      written 16 = b.floats.toBits tvm ∧ written 20 = b.floats.toBits rvm := by
  obtain ⟨later, globals, controller, advances⟩ := driveUpdateAdvances b f
  have next : nextOdometry b f = odometry b.floats later.driveController (getFloat b later .driveStatus 4)
      (getFloat b later .driveStatus 8) (getFloat b later .driveStatus 12) (wheelTicks f .left) (wheelTicks f .right) := by
    rw [nextOdometry, controller, getFloat, getFloat, getFloat, getFloat, getFloat, getFloat, globals]
  rw [advances, next]
  unfold driveAdvance
  dsimp only
  rw [controller]
  unfold setVelocities setPose
  dsimp only
  simp (disch := decide) only [setFloatApart, setFloatBits]
  exact ⟨rfl, rfl, rfl, rfl, rfl⟩

/- The readings an update is done with are what the next one starts from. -/
theorem driveUpdateWheel (b : Board F) (f : State F) (w : Wheel) :
    wheelPrevious (driveUpdate b f) w = (encoderOf f (wheelStatus f w)).1.toNat ∧
      wheelStatus (driveUpdate b f) w = wheelStatus f w := by
  obtain ⟨later, -, controller, advances⟩ := driveUpdateAdvances b f
  have after : (driveUpdate b f).driveController = { later.driveController with
      encoderRightPrevious := (encoderOf f (wheelStatus f .right)).1.toNat
      encoderLeftPrevious := (encoderOf f (wheelStatus f .left)).1.toNat } := by
    rw [advances]
    rfl
  rw [controller] at after
  cases w with
  | left => exact ⟨congrArg (·.encoderLeftPrevious) after, congrArg (·.statusLeft) after⟩
  | right => exact ⟨congrArg (·.encoderRightPrevious) after, congrArg (·.statusRight) after⟩

theorem driveUpdateCounts (b : Board F) (f : State F) : CountsTicks b f :=
  ⟨driveUpdateOdometry b f, odometryVelocities .., fun w => (driveUpdateWheel b f w).1⟩

end Update

/-! Readings of a position: its low 16 bits. -/

theorem ofInt16ToNat (v : Int) : ((ofInt16 v).toNat : Int) = v % 65536 := by
  have := Int.emod_nonneg v (b := 65536) (by decide)
  have := Int.emod_lt_of_pos v (b := 65536) (by decide)
  rw [ofInt16, UInt16.toNat_ofNat']
  omega

theorem ticksOfReadings (p q : Int) : toInt16 ((ofInt16 q).toNat - (ofInt16 p).toNat) = toInt16 (q - p) := by
  rw [ofInt16ToNat, ofInt16ToNat, toInt16, toInt16]
  omega

theorem speedOfReadings (p q : Int) : signed16 (ofInt16 q - ofInt16 p) = toInt16 (q - p) := by
  have first := ofInt16ToNat p
  have second := ofInt16ToNat q
  have before := (ofInt16 p).toNat_lt
  have behind := (ofInt16 q).toNat_lt
  have difference : (ofInt16 q - ofInt16 p).toNat = (65536 - (ofInt16 p).toNat + (ofInt16 q).toNat) % 65536 := UInt16.toNat_sub ..
  have side : (ofInt16 q - ofInt16 p) < 32768 ↔ (ofInt16 q - ofInt16 p).toNat < 32768 := UInt16.lt_iff_toNat_lt
  rw [signed16, toInt16]
  split
  · rename_i low
    rw [side] at low
    omega
  · rename_i high
    rw [side] at high
    omega

theorem toInt16ModEq (v : Int) : toInt16 v ≡ v [ZMOD 65536] := by
  rw [Int.ModEq, toInt16]
  omega

theorem toInt16Fits {v : Int} (low : -32768 ≤ v) (high : v ≤ 32767) : toInt16 v = v := by
  rw [toInt16]
  omega

/-! Joint cycles and updates of the drive, in any order. The encoder of a joint is at an integer position. -/

inductive WheelStep where
  | handle (joint : Fin numJoints) (position : Int)
  | update

def wheelStep (b : Board F) (f : State F) : WheelStep → State F
  | .handle joint position => jointControllerHandle (ofInt16 position) joint f
  | .update => driveUpdate b f

def encoderSpeed (f : State F) (i : Nat) : Int := signed16 (load16 (f.globals .jointStatus) (jointStatusAt i + 7))

/- The ticks the updates use. -/
def ticksUsed (b : Board F) (w : Wheel) : State F → List WheelStep → List Int
  | _, [] => []
  | f, .handle joint position :: rest => ticksUsed b w (wheelStep b f (.handle joint position)) rest
  | f, .update :: rest => wheelTicks f w :: ticksUsed b w (wheelStep b f .update) rest

/- The speeds the controller of joint `l` computes. -/
def speedsComputed (b : Board F) (l : Fin numJoints) : State F → List WheelStep → List Int
  | _, [] => []
  | f, .handle joint position :: rest =>
    let f := wheelStep b f (.handle joint position)
    (if joint = l then [encoderSpeed f l] else []) ++ speedsComputed b l f rest
  | f, .update :: rest => speedsComputed b l (wheelStep b f .update) rest

/- The positions of joint `l` at its cycles. -/
def positionsHandled (l : Fin numJoints) : List WheelStep → List Int
  | [] => []
  | .handle joint position :: rest => (if joint = l then [position] else []) ++ positionsHandled l rest
  | .update :: rest => positionsHandled l rest

/- The position of joint `l` when it was last read. -/
def lastPosition (l : Fin numJoints) (start : Int) (steps : List WheelStep) : Int := (positionsHandled l steps).getLastD start

/- Those the updates find. -/
def positionsUpdated (l : Fin numJoints) : Int → List WheelStep → List Int
  | _, [] => []
  | p, .handle joint position :: rest => positionsUpdated l (if joint = l then position else p) rest
  | p, .update :: rest => p :: positionsUpdated l p rest

/- A wheel on joint `l`, at position `p` since the joint's last cycle and at `previous` at the drive's last update. -/
structure Rolling (w : Wheel) (l : Fin numJoints) (p previous : Int) (f : State F) : Prop where
  bound : ∀ i < numJoints, JointBound f i
  pointer : wheelStatus f w = some l.val
  position : encoderPosition f l = ofInt16 p
  counted : wheelPrevious f w = (ofInt16 previous).toNat

/- Where a joint controller points. -/
def owned (j : JointController) : Option Nat × Option Nat × Option Nat := (j.params, j.status, j.control)

instance (f : State F) (i : Nat) : Decidable (JointBound f i) :=
  decidable_of_iff (owned (f.jointControllers i) = (some i, some i, some i))
    ⟨fun same => ⟨congrArg Prod.fst same, congrArg (·.2.1) same, congrArg (·.2.2) same⟩,
      fun bound => Prod.ext bound.params (Prod.ext bound.status bound.control)⟩

section Rolling
variable {b : Board F} {f : State F} {w : Wheel} {l : Fin numJoints} {p previous : Int}

theorem Rolling.ticks (rolling : Rolling w l p previous f) : wheelTicks f w = toInt16 (p - previous) := by
  rw [wheelTicks, rolling.pointer, rolling.counted, encoderOf, rolling.position, ticksOfReadings]

theorem JointBound.kept {later : State F} {i : Nat} (bound : JointBound f i)
    (same : owned (later.jointControllers i) = owned (f.jointControllers i)) : JointBound later i :=
  ⟨(congrArg Prod.fst same).trans bound.params, (congrArg (·.2.1) same).trans bound.status,
    (congrArg (·.2.2) same).trans bound.control⟩

theorem Rolling.update (rolling : Rolling w l p previous f) : Rolling w l p p (driveUpdate b f) := by
  have only := driveUpdateOnly b f
  have status : (driveUpdate b f).globals .jointStatus = f.globals .jointStatus :=
    funext fun a => only.globals _ a fun written => nomatch written.1
  have controllers : (driveUpdate b f).jointControllers = f.jointControllers := by rw [only.same]
  obtain ⟨counted, pointer⟩ := driveUpdateWheel b f w
  refine ⟨fun i inside => ?_, pointer.trans rolling.pointer, ?_, ?_⟩
  · exact (rolling.bound i inside).kept (by rw [controllers])
  · rw [encoderPosition, status]
    exact rolling.position
  · rw [counted, rolling.pointer, encoderOf, rolling.position]

/- Behind the report, a cycle writes the desired speed only. -/
theorem handleReports {i : Nat} (bound : JointBound f i) (enc : UInt16) {a : Nat}
    (apart : ¬ (a = jointStatusAt i + 9 ∨ a = jointStatusAt i + 9 + 1)) :
    (jointControllerHandle enc i f).globals .jointStatus a = (reported enc i f).globals .jointStatus a := by
  rw [handleBound bound]
  dsimp only
  split
  · rfl
  split
  · rfl
  split
  · change (setWord (reported enc i f) .jointStatus (jointStatusAt i + 9) _).globals .jointStatus a = _
    exact setWordOutside _ _ _ _ fun here => apart here.2
  · rfl

theorem handlePosition {i : Nat} (bound : JointBound f i) (enc : UInt16) :
    encoderPosition (jointControllerHandle enc i f) i = enc := by
  rw [encoderPosition, load16, handleReports bound enc (by omega), handleReports bound enc (by omega)]
  exact reportedPosition enc i f

theorem handleSpeed {i : Nat} (bound : JointBound f i) (enc : UInt16) :
    encoderSpeed (jointControllerHandle enc i f) i = signed16 (enc - encoderPosition f i) := by
  have word := signed16Bounds (enc - encoderPosition f i)
  have written : ∀ k : Nat, k = 7 ∨ k = 8 → (jointControllerHandle enc i f).globals .jointStatus (jointStatusAt i + k) =
      (setWord f .jointStatus (jointStatusAt i + 7) (ofInt16 (signed16 (enc - encoderPosition f i)))).globals .jointStatus
        (jointStatusAt i + k) := by
    intro k field
    rw [handleReports bound enc (by omega), reported, setWordOutside _ _ _ _ (by omega), setByteOutside _ _ _ _ (by omega),
      setWordOutside _ _ _ _ (by omega)]
  rw [encoderSpeed, load16, written 7 (Or.inl rfl)]
  rw [show jointStatusAt i + 7 + 1 = jointStatusAt i + 8 from rfl, written 8 (Or.inr rfl), setWord, setSame]
  exact (congrArg signed16 (load16Store16 _ _ _)).trans (signed16OfInt16 word.1 (by omega))

/- The other joint's position is not written. -/
theorem handleApart {i j : Nat} (bound : JointBound f i) (enc : UInt16) (other : j ≠ i) :
    encoderPosition (jointControllerHandle enc i f) j = encoderPosition f j := by
  have kept : ∀ k : Nat, k = 5 ∨ k = 6 → (jointControllerHandle enc i f).globals .jointStatus (jointStatusAt j + k) =
      f.globals .jointStatus (jointStatusAt j + k) := by
    intro k field
    have entries := And.intro (jointStatusEntry i) (jointStatusEntry j)
    rw [handleReports bound enc (by omega), reported, setWordOutside _ _ _ _ (by omega), setByteOutside _ _ _ _ (by omega),
      setWordOutside _ _ _ _ (by omega), setWordOutside _ _ _ _ (by omega)]
  rw [encoderPosition, encoderPosition, load16, load16]
  exact congrArg₂ (fun low high : UInt8 => low.toUInt16 ||| (high.toUInt16 <<< 8)) (kept 5 (Or.inl rfl)) (kept 6 (Or.inr rfl))

theorem setControllerOwned {mid : State F} (controllers : mid.jointControllers = f.jointControllers) {i : Nat}
    {j : JointController} (same : owned j = owned (f.jointControllers i)) (k : Nat) :
    owned ((setController mid i j).jointControllers k) = owned (f.jointControllers k) := by
  by_cases here : k = i
  · rw [here, setControllerSame, same]
  · rw [← controllers]
    exact congrArg owned (Function.update_of_ne here ..)

theorem handleOwned {i : Nat} (bound : JointBound f i) (enc : UInt16) (k : Nat) :
    owned ((jointControllerHandle enc i f).jointControllers k) = owned (f.jointControllers k) := by
  have controllers : (reported enc i f).jointControllers = f.jointControllers := rfl
  rw [handleBound bound]
  dsimp only
  split
  · refine setControllerOwned controllers ?_ k
    rfl
  split
  · refine setControllerOwned controllers ?_ k
    rfl
  split
  · refine setControllerOwned controllers ?_ k
    rfl
  · rfl

theorem Rolling.handle (rolling : Rolling w l p previous f) (joint : Fin numJoints) (position : Int) :
    Rolling w l (if joint = l then position else p) previous (wheelStep b f (.handle joint position)) := by
  have bound := rolling.bound joint joint.isLt
  have drive : (wheelStep b f (.handle joint position)).driveController = f.driveController := by
    rw [wheelStep, (jointControllerHandleOnly (ofInt16 position) joint f).same]
  refine ⟨fun i inside => (rolling.bound i inside).kept (handleOwned bound _ i), ?_, ?_, ?_⟩
  · rw [← rolling.pointer]
    cases w <;> simp only [wheelStatus, drive]
  · by_cases own : joint = l
    · rw [if_pos own, ← own]
      exact handlePosition bound _
    · rw [if_neg own, ← rolling.position]
      exact handleApart bound _ fun same => own (Fin.ext same.symm)
  · rw [← rolling.counted]
    cases w <;> simp only [wheelPrevious, drive]

theorem Rolling.speed (rolling : Rolling w l p previous f) (position : Int) :
    encoderSpeed (wheelStep b f (.handle l position)) l = toInt16 (position - p) := by
  rw [wheelStep, handleSpeed (rolling.bound l l.isLt), rolling.position, speedOfReadings]

/- The steps between readings, as 16 bits have them. -/
def wrapped (p q : Int) : Int := toInt16 (q - p)

theorem Rolling.ticksTotal (rolling : Rolling w l p previous f) (steps : List WheelStep) :
    (ticksUsed b w f steps).sum = total wrapped (previous :: positionsUpdated l p steps) := by
  induction steps generalizing f p previous with
  | nil => rfl
  | cons step rest ih =>
    cases step with
    | handle joint position => exact ih (rolling.handle joint position)
    | update =>
      rw [ticksUsed, List.sum_cons, rolling.ticks, positionsUpdated, totalStep]
      exact congrArg _ (ih rolling.update)

theorem Rolling.speedsTotal (rolling : Rolling w l p previous f) (steps : List WheelStep) :
    (speedsComputed b l f steps).sum = total wrapped (p :: positionsHandled l steps) := by
  induction steps generalizing f p previous with
  | nil => rfl
  | cons step rest ih =>
    cases step with
    | handle joint position =>
      have later := ih (rolling.handle (b := b) joint position)
      rw [speedsComputed, positionsHandled]
      by_cases own : joint = l
      · subst own
        rw [if_pos rfl] at later ⊢
        rw [if_pos rfl, List.singleton_append, List.singleton_append, List.sum_cons, later, totalStep, rolling.speed]
        rfl
      · rw [if_neg own] at later ⊢
        rw [if_neg own, List.nil_append, List.nil_append, later]
    | update => exact ih rolling.update

end Rolling

theorem positionsUpdatedLast (l : Fin numJoints) (p : Int) (steps : List WheelStep) (other : Int) :
    (positionsUpdated l p (steps ++ [.update])).getLastD other = lastPosition l p steps := by
  induction steps generalizing p other with
  | nil => rfl
  | cons step rest ih =>
    cases step with
    | handle joint position =>
      rw [List.cons_append, positionsUpdated, ih, lastPosition, lastPosition, positionsHandled]
      by_cases own : joint = l
      · rw [if_pos own, if_pos own, List.singleton_append, List.getLastD_cons]
      · rw [if_neg own, if_neg own, List.nil_append]
    | update =>
      rw [List.cons_append, positionsUpdated, List.getLastD_cons, ih]
      rfl

theorem positionsHandledUpdate (l : Fin numJoints) (steps : List WheelStep) :
    positionsHandled l (steps ++ [.update]) = positionsHandled l steps := by
  induction steps with
  | nil => rfl
  | cons step rest ih =>
    cases step with
    | handle joint position => rw [List.cons_append, positionsHandled, positionsHandled, ih]
    | update => exact ih

theorem resetController (b : Board F) (f : State F) (x y theta : F) :
    (driveControllerReset b x y theta f).driveController = { f.driveController with
      encoderLeftPrevious := (encoderOf f (wheelStatus f .left)).1.toNat
      encoderRightPrevious := (encoderOf f (wheelStatus f .right)).1.toNat } := by
  obtain ⟨start, status, controller, ends⟩ : ∃ start : State F, start.globals .jointStatus = f.globals .jointStatus ∧
      start.driveController = f.driveController ∧ driveControllerReset b x y theta f =
        let left := encoderOf start start.driveController.statusLeft
        let right := encoderOf left.2 left.2.driveController.statusRight
        { right.2 with driveController := { right.2.driveController with
            encoderLeftPrevious := left.1.toNat, encoderRightPrevious := right.1.toNat } } := by
    refine ⟨_, ?_, ?_, rfl⟩
    · rfl
    · rfl
  obtain ⟨right, -, kept⟩ := encodersRead start (·.statusLeft) (·.statusRight)
  rw [ends]
  dsimp only
  rw [right, kept, controller, encoderOfReads status, encoderOfReads status]
  rfl

theorem resetWheel (b : Board F) (f : State F) (x y theta : F) (w : Wheel) :
    wheelPrevious (driveControllerReset b x y theta f) w = (encoderOf f (wheelStatus f w)).1.toNat ∧
      wheelStatus (driveControllerReset b x y theta f) w = wheelStatus f w := by
  have after := resetController b f x y theta
  cases w with
  | left => exact ⟨congrArg (·.encoderLeftPrevious) after, congrArg (·.statusLeft) after⟩
  | right => exact ⟨congrArg (·.encoderRightPrevious) after, congrArg (·.statusRight) after⟩

theorem resetRolling {b : Board F} {f : State F} {w : Wheel} {l : Fin numJoints} {start : Int} (x y theta : F)
    (bound : ∀ i < numJoints, JointBound f i) (pointer : wheelStatus f w = some l.val)
    (position : encoderPosition f l = ofInt16 start) : Rolling w l start start (driveControllerReset b x y theta f) := by
  have only : DriveOnly f (driveControllerReset b x y theta f) := driveControllerResetOnly x y theta
  have controllers : (driveControllerReset b x y theta f).jointControllers = f.jointControllers := by rw [only.same]
  obtain ⟨counted, same⟩ := resetWheel b f x y theta w
  refine ⟨fun i inside => (bound i inside).kept (by rw [controllers]), same.trans pointer, ?_, ?_⟩
  · rw [← position]
    exact only.globals.word (fun written => nomatch written.1) fun written => nomatch written.1
  · rw [counted, pointer, encoderOf, position]

def WithinWord (p q : Int) : Prop := -32768 ≤ q - p ∧ q - p ≤ 32767

instance (p q) : Decidable (WithinWord p q) := by unfold WithinWord; infer_instance

/- Every update counts the ticks of its wheels. After a reset, those used up to any update are the speeds of the joint's
cycles up to it, but for multiples of 2^16, and the distance the wheel turned if it turned at most a word between two
updates. -/
theorem ticksAreSpeeds (b : Board F) (f : State F) (x y theta : F) (w : Wheel) (l : Fin numJoints) (start : Int)
    (steps : List WheelStep) (bound : ∀ i < numJoints, JointBound f i) (pointer : wheelStatus f w = some l.val)
    (position : encoderPosition f l = ofInt16 start) :
    let reset := driveControllerReset b x y theta f
    let run := steps ++ [.update]
    (∀ g : State F, CountsTicks b g) ∧
      (ticksUsed b w reset run).sum ≡ (speedsComputed b l reset run).sum [ZMOD 65536] ∧
      ((start :: positionsUpdated l start run).IsChain WithinWord →
        (ticksUsed b w reset run).sum = lastPosition l start steps - start) := by
  intro reset run
  have rolling : Rolling w l start start reset := resetRolling x y theta bound pointer position
  have modulo : ∀ p q, wrapped p q ≡ q - p [ZMOD 65536] := fun p q => toInt16ModEq (q - p)
  have unwrapped : ∀ p q, WithinWord p q → wrapped p q = q - p := fun p q within => toInt16Fits within.1 within.2
  have moved : total (fun p q => q - p) (start :: positionsUpdated l start run) = lastPosition l start steps - start := by
    rw [displacementTotal, displacement, positionsUpdatedLast]
  have handled : total (fun p q => q - p) (start :: positionsHandled l run) = lastPosition l start steps - start := by
    rw [displacementTotal, displacement, positionsHandledUpdate]
    rfl
  rw [rolling.ticksTotal, rolling.speedsTotal]
  refine ⟨driveUpdateCounts b, ?_, fun within => ?_⟩
  · calc total wrapped (start :: positionsUpdated l start run)
        ≡ lastPosition l start steps - start [ZMOD 65536] := moved ▸ totalModEq modulo _
      _ ≡ total wrapped (start :: positionsHandled l run) [ZMOD 65536] := (handled ▸ totalModEq modulo _).symm
  · rw [totalCongr unwrapped within, moved]

/- On the bench, where the right wheel is on joint 0, it turns by 60000 in three cycles. -/
def benchDrive : State Rat := (driveInit bench bootedJoints).2

def turningRight : List WheelStep :=
  [.handle ⟨0, by decide⟩ 20000, .handle ⟨1, by decide⟩ (-5), .handle ⟨0, by decide⟩ 30000, .update,
    .handle ⟨0, by decide⟩ 60000]

theorem sixtyThousandTicks :
    CountsTicks bench benchDrive ∧
      (ticksUsed bench .right (driveControllerReset bench 0 0 0 benchDrive) (turningRight ++ [.update])).sum = 60000 := by
  have counted := ticksAreSpeeds bench benchDrive 0 0 0 .right ⟨0, by decide⟩ 0 turningRight (by decide +kernel)
    (by decide +kernel) (by decide +kernel)
  exact ⟨counted.1 benchDrive, counted.2.2 (by decide)⟩

end OrazioLogger.Firmware
