import OrazioLogger.Odometry
import Mathlib.Algebra.Order.Field.Basic
import Mathlib.Algebra.Order.Field.Rat
import Mathlib.Data.Rat.Cast.Order
import Mathlib.Tactic.FieldSimp
import Mathlib.Tactic.Linarith
import Mathlib.Tactic.Ring

/-! From velocities of the base to speeds of the joints and back, in exact arithmetic. -/
namespace OrazioLogger.Firmware
open OrazioClient (load16 load32 load16Store16)

variable {F K : Type}

/-! Arithmetic without rounding. -/

section Exact
variable [Field K] [LinearOrder K]

/- What is left of a number when its fraction is dropped. -/
def Truncates (x : K) (n : Int) : Prop := |x - n| < 1 ∧ |(n : K)| ≤ |x|

structure Exact (fl : Floats K) : Prop where
  ofInt : ∀ n, fl.ofInt n = n
  add : ∀ x y, fl.add x y = x + y
  sub : ∀ x y, fl.sub x y = x - y
  mul : ∀ x y, fl.mul x y = x * y
  div : ∀ x y, fl.div x y = x / y
  eq : ∀ x y, fl.eq x y = decide (x = y)
  toInt16 : ∀ x, -32769 < x → x < 32768 → Truncates x (fl.toInt16 x)

end Exact

theorem rationalsTruncate (q : Rat) : Truncates q (rationals.toInt16 q) := by
  have den : (0 : Rat) < q.den := by exact_mod_cast q.den_pos
  have split : (q.num : Rat) = q.den * (q.num.tdiv q.den : Int) + (q.num.tmod q.den : Int) := by
    exact_mod_cast (Int.mul_tdiv_add_tmod q.num q.den).symm
  have left : |((q.num.tmod q.den : Int) : Rat)| < q.den := by
    have below := Nat.mod_lt q.num.natAbs q.den_pos
    rw [← Int.cast_abs, Int.abs_eq_natAbs, Int.natAbs_tmod]
    exact_mod_cast below
  have whole : |((q.num.tdiv q.den : Int) : Rat)| * q.den ≤ |(q.num : Rat)| := by
    have most := Nat.div_mul_le_self q.num.natAbs q.den
    rw [← Int.cast_abs, ← Int.cast_abs, Int.abs_eq_natAbs, Int.abs_eq_natAbs, Int.natAbs_tdiv]
    exact_mod_cast most
  have value : q * q.den = q.num := Rat.mul_den_eq_num q
  have scale : |q| * q.den = |(q.num : Rat)| := by rw [← value, abs_mul, abs_of_pos den]
  refine ⟨?_, ?_⟩
  · have apart : (q - (q.num.tdiv q.den : Int)) * q.den = (q.num.tmod q.den : Int) := by
      rw [sub_mul, value, split]
      ring
    rw [← apart, abs_mul, abs_of_pos den] at left
    exact (mul_lt_iff_lt_one_left den).mp left
  · rw [← scale] at whole
    exact le_of_mul_le_mul_right whole den

theorem rationalsExact : Exact rationals := by
  refine ⟨fun _ => rfl, fun _ _ => rfl, fun _ _ => rfl, fun _ _ => rfl, fun _ _ => rfl, fun _ _ => rfl, fun q _ _ => ?_⟩
  exact rationalsTruncate q

/-! The velocities `DifferentialDriveController_update` measures. -/

/- For ticks that need not be whole. -/
def measuredVelocities (fl : Floats F) (ctr : DifferentialDriveController F) (leftTicks rightTicks : F) : F × F :=
  if fl.eq leftTicks (fl.ofInt 0) = false ∨ fl.eq rightTicks (fl.ofInt 0) = false then
    movedVelocities fl ctr leftTicks rightTicks
  else (fl.ofInt 0, fl.ofInt 0)

/- The update stores them, for the ticks it counts. -/
structure UpdateMeasures (b : Board F) (f : State F) : Prop where
  tv : load32 ((driveUpdate b f).globals .driveStatus) 16 = b.floats.toBits (measuredVelocities b.floats f.driveController
    (b.floats.ofInt (wheelTicks f .left)) (b.floats.ofInt (wheelTicks f .right))).1
  rv : load32 ((driveUpdate b f).globals .driveStatus) 20 = b.floats.toBits (measuredVelocities b.floats f.driveController
    (b.floats.ofInt (wheelTicks f .left)) (b.floats.ofInt (wheelTicks f .right))).2

/- `DifferentialDriveController_control` asks the joints of the two wheels for the truncated speeds of the velocities adjusted. -/
structure ControlAsks (b : Board F) (f : State F) (left right : Nat) : Prop where
  leftSpeed : jointSpeed (driveControllerControl b f) left = toInt16 (b.floats.toInt16 (jointVelocities b.floats f.driveController
    (getFloat b f .driveParams 12) (getFloat b f .driveStatus 32) (getFloat b f .driveStatus 36)).1)
  rightSpeed : jointSpeed (driveControllerControl b f) right = toInt16 (b.floats.toInt16 (jointVelocities b.floats f.driveController
    (getFloat b f .driveParams 12) (getFloat b f .driveStatus 32) (getFloat b f .driveStatus 36)).2)
  modes : jointMode (driveControllerControl b f) left = jointPid ∧ jointMode (driveControllerControl b f) right = jointPid

section Control
variable {f : State F}

theorem signedOfWord (v : Int) : signed16 (ofInt16 v) = toInt16 v := by
  have reading := speedOfReadings 0 v
  rw [sub_zero] at reading
  exact (congrArg signed16 (UInt16.sub_zero _).symm).trans reading

theorem setSpeedRead (f : State F) (i : Nat) (speed : Int) : jointSpeed (setJointSpeed f (some i) speed) i = toInt16 speed := by
  rw [jointSpeed, setJointSpeed, setWord, setSame]
  exact (congrArg signed16 (load16Store16 _ _ _)).trans (signedOfWord speed)

theorem setSpeedApart {i j : Nat} (apart : i ≠ j) (f : State F) (speed : Int) :
    jointSpeed (setJointSpeed f (some j) speed) i = jointSpeed f i := by
  have entries := And.intro (jointControlEntry i) (jointControlEntry j)
  rw [jointSpeed, jointSpeed, load16, load16, setJointSpeed, setWordOutside _ _ _ _ (by omega), setWordOutside _ _ _ _ (by omega)]

theorem setModeSpeed (f : State F) (i j : Nat) (mode : UInt8) : jointSpeed (setJointMode f (some j) mode) i = jointSpeed f i := by
  have entries := And.intro (jointControlEntry i) (jointControlEntry j)
  rw [jointSpeed, jointSpeed, load16, load16, setJointMode, setByteOutside _ _ _ _ (by omega), setByteOutside _ _ _ _ (by omega)]

theorem setModeRead (f : State F) (i : Nat) (mode : UInt8) : jointMode (setJointMode f (some i) mode) i = mode := setByteSame ..

theorem setModeApart {i j : Nat} (apart : i ≠ j) (f : State F) (mode : UInt8) :
    jointMode (setJointMode f (some j) mode) i = jointMode f i := by
  have entries := And.intro (jointControlEntry i) (jointControlEntry j)
  rw [jointMode, jointMode, setJointMode, setByteOutside _ _ _ _ (by omega)]

theorem driveControllerAsks (b : Board F) {left right : Nat} (controlLeft : f.driveController.controlLeft = some left)
    (controlRight : f.driveController.controlRight = some right) (apart : left ≠ right) : ControlAsks b f left right := by
  let speeds := jointVelocities b.floats f.driveController (getFloat b f .driveParams 12) (getFloat b f .driveStatus 32)
    (getFloat b f .driveStatus 36)
  have asked : driveControllerControl b f =
      setJointMode (setJointMode (setJointSpeed (setJointSpeed f (some left) (b.floats.toInt16 speeds.1)) (some right)
        (b.floats.toInt16 speeds.2)) (some left) jointPid) (some right) jointPid := by
    rw [← controlLeft, ← controlRight]
    rfl
  refine ⟨?_, ?_, ?_, ?_⟩
  · rw [asked, setModeSpeed, setModeSpeed, setSpeedApart apart, setSpeedRead]
  · rw [asked, setModeSpeed, setModeSpeed, setSpeedRead]
  · rw [asked, setModeApart apart, setModeRead]
  · rw [asked, setModeRead]

end Control

section Measured
variable [Field K] [LinearOrder K] {fl : Floats K} {ctr : DifferentialDriveController K}

theorem measuredExact (exact : Exact fl) (leftTicks rightTicks : K) :
    measuredVelocities fl ctr leftTicks rightTicks = (1 / 2 * (ctr.kr * rightTicks + ctr.kl * leftTicks) * ctr.idt,
      (ctr.kr * rightTicks - ctr.kl * leftTicks) * ctr.ibaseline * ctr.idt) := by
  unfold measuredVelocities movedVelocities literal
  simp only [exact.eq, exact.ofInt, exact.mul, exact.add, exact.sub, exact.div, Int.cast_zero, Int.cast_one, Int.cast_ofNat,
    decide_eq_false_iff_not]
  split
  · rfl
  · rename_i still
    obtain ⟨left, right⟩ := not_or.mp still
    rw [not_not.mp left, not_not.mp right]
    simp

theorem jointVelocitiesExact (exact : Exact fl) (baseline tv rv : K) :
    jointVelocities fl ctr baseline tv rv =
      (ctr.ikl * (tv * ctr.jointsDt - 1 / 2 * baseline * rv * ctr.jointsDt),
        ctr.ikr * (tv * ctr.jointsDt + 1 / 2 * baseline * rv * ctr.jointsDt)) := by
  unfold jointVelocities literal
  simp only [exact.ofInt, exact.mul, exact.add, exact.sub, exact.div, Int.cast_one, Int.cast_ofNat]

variable [IsStrictOrderedRing K]

theorem odometryMeasures (exact : Exact fl) (x y theta : K) (leftTicks rightTicks : Int) :
    (odometry fl ctr x y theta leftTicks rightTicks).2.2.2 =
      measuredVelocities fl ctr (fl.ofInt leftTicks) (fl.ofInt rightTicks) := by
  have moves : (leftTicks ≠ 0 ∨ rightTicks ≠ 0) ↔
      (fl.eq (fl.ofInt leftTicks) (fl.ofInt 0) = false ∨ fl.eq (fl.ofInt rightTicks) (fl.ofInt 0) = false) := by
    simp only [exact.eq, exact.ofInt, decide_eq_false_iff_not, Int.cast_inj, ne_eq]
  rw [odometryVelocities, measuredVelocities]
  exact if_congr moves rfl rfl

theorem driveUpdateMeasures {b : Board K} (exact : Exact b.floats) (f : State K) : UpdateMeasures b f := by
  have measured : (nextOdometry b f).2.2.2 = _ := odometryMeasures exact _ _ _ (wheelTicks f .left) (wheelTicks f .right)
  obtain ⟨-, -, -, tv, rv⟩ := driveUpdateOdometry b f
  exact ⟨tv.trans (congrArg (fun v => b.floats.toBits v.1) measured), rv.trans (congrArg (fun v => b.floats.toBits v.2) measured)⟩

/- Errors below one in the ticks of the two wheels. -/
theorem wheelErrors {kl kr el er : K} (left : |el| < 1) (right : |er| < 1) (wheel : kl ≠ 0) :
    |kr * er + kl * el| < |kl| + |kr| := by
  have leftError : |kl * el| < |kl| := by
    rw [abs_mul]
    exact mul_lt_of_lt_one_right (abs_pos.mpr wheel) left
  have rightError : |kr * er| ≤ |kr| := by
    rw [abs_mul]
    exact mul_le_of_le_one_right (abs_nonneg kr) right.le
  have triangle := abs_add_le (kr * er) (kl * el)
  linarith

end Measured

/-! The drive as it is initialised. -/

section Agree
variable [Field K] [LinearOrder K] [IsStrictOrderedRing K] {b : Board K}

/- What the velocities become in `n` cycles of joints that turn by the given ticks each. -/
theorem kinematicsMeasured (exact : Exact b.floats) (left right : JointController) (f : State K) (jointsDt : K) (n : Nat)
    (period : 0 < jointsDt) (cycles : 1 ≤ n) (ikr : getFloat b f .driveParams 4 ≠ 0) (ikl : getFloat b f .driveParams 8 ≠ 0)
    (baseline : getFloat b f .driveParams 12 ≠ 0) (tv rv el er : K) :
    let ctr := (driveControllerBind b left right (b.floats.mul jointsDt (b.floats.ofInt n)) jointsDt f).driveController
    let (jlv, jrv) := jointVelocities b.floats ctr (getFloat b f .driveParams 12) tv rv
    measuredVelocities b.floats ctr (n * (jlv - el)) (n * (jrv - er)) =
      (tv - (ctr.kr * er + ctr.kl * el) / (2 * jointsDt),
        rv - (ctr.kr * er - ctr.kl * el) / (getFloat b f .driveParams 12 * jointsDt)) := by
  have several : (n : K) ≠ 0 := Nat.cast_ne_zero.mpr (by omega)
  intro ctr
  have kl : ctr.kl = 1 / getFloat b f .driveParams 8 := by simp [ctr, driveControllerBind, exact.div, exact.ofInt]
  have kr : ctr.kr = 1 / getFloat b f .driveParams 4 := by simp [ctr, driveControllerBind, exact.div, exact.ofInt]
  have ibaseline : ctr.ibaseline = 1 / getFloat b f .driveParams 12 := by
    simp [ctr, driveControllerBind, exact.div, exact.ofInt]
  have idt : ctr.idt = 1 / (jointsDt * n) := by
    simp [ctr, driveControllerBind, exact.div, exact.ofInt, exact.mul]
  have own : ctr.ikl = getFloat b f .driveParams 8 ∧ ctr.ikr = getFloat b f .driveParams 4 ∧ ctr.jointsDt = jointsDt :=
    ⟨rfl, rfl, rfl⟩
  rw [jointVelocitiesExact exact]
  dsimp only
  rw [measuredExact exact, kl, kr, ibaseline, idt, own.1, own.2.1, own.2.2]
  generalize getFloat b f .driveParams 4 = r at ikr
  generalize getFloat b f .driveParams 8 = l at ikl
  generalize getFloat b f .driveParams 12 = base at baseline
  have nonzero := period.ne'
  refine Prod.ext ?_ ?_
  · dsimp only
    field_simp
    ring
  · dsimp only
    field_simp
    ring

/- What a tick more or less weighs in the velocities. -/
theorem errorTv {kl kr el er : K} {jointsDt : K} (period : 0 < jointsDt) (left : |el| < 1) (right : |er| < 1) (wheel : kl ≠ 0)
    (tv : K) : |tv - (kr * er + kl * el) / (2 * jointsDt) - tv| < (|kl| + |kr|) / (2 * jointsDt) := by
  have scale : 0 < 2 * jointsDt := by linarith
  rw [sub_sub_cancel_left, abs_neg, abs_div, abs_of_pos scale]
  exact div_lt_div_of_pos_right (wheelErrors left right wheel) scale

theorem errorRv {kl kr el er base : K} {jointsDt : K} (period : 0 < jointsDt) (left : |el| < 1) (right : |er| < 1)
    (wheel : kl ≠ 0) (baseline : base ≠ 0) (rv : K) :
    |rv - (kr * er - kl * el) / (base * jointsDt) - rv| < (|kl| + |kr|) / (|base| * jointsDt) := by
  have scale : 0 < |base| * jointsDt := mul_pos (abs_pos.mpr baseline) period
  have apart : kr * er - kl * el = kr * er + kl * -el := by ring
  rw [sub_sub_cancel_left, abs_neg, abs_div, abs_mul, abs_of_pos period, apart]
  exact div_lt_div_of_pos_right (wheelErrors (by rwa [abs_neg]) right wheel) scale

/- The update measures these velocities of the ticks it counts, and the control asks for these speeds. Joints that follow
them for a cycle of the drive have the update measure the velocities asked for, and those that follow the truncated speeds
velocities that are off by less than a tick a cycle. -/
theorem kinematicsAgree (exact : Exact b.floats) (left right : JointController) (f : State K) (jointsDt : K) (n : Nat)
    (period : 0 < jointsDt) (cycles : 1 ≤ n) (ikr : getFloat b f .driveParams 4 ≠ 0) (ikl : getFloat b f .driveParams 8 ≠ 0)
    (baseline : getFloat b f .driveParams 12 ≠ 0) (tv rv : K) :
    let ctr := (driveControllerBind b left right (b.floats.mul jointsDt (b.floats.ofInt n)) jointsDt f).driveController
    let (jlv, jrv) := jointVelocities b.floats ctr (getFloat b f .driveParams 12) tv rv
    let (sl, sr) := (b.floats.toInt16 jlv, b.floats.toInt16 jrv)
    (∀ g : State K, UpdateMeasures b g) ∧
      (∀ (g : State K) (l r : Nat), g.driveController.controlLeft = some l → g.driveController.controlRight = some r → l ≠ r →
        ControlAsks b g l r) ∧
      measuredVelocities b.floats ctr (n * jlv) (n * jrv) = (tv, rv) ∧
      ∀ x y theta, -32769 < jlv → jlv < 32768 → -32769 < jrv → jrv < 32768 → -32768 ≤ n * sl → n * sl ≤ 32767 →
        -32768 ≤ n * sr → n * sr ≤ 32767 →
        let (_, _, _, tvm, rvm) := odometry b.floats ctr x y theta (toInt16 (n * sl)) (toInt16 (n * sr))
        |tvm - tv| < (|ctr.kl| + |ctr.kr|) / (2 * jointsDt) ∧
          |rvm - rv| < (|ctr.kl| + |ctr.kr|) / (|getFloat b f .driveParams 12| * jointsDt) := by
  intro ctr
  have measured := kinematicsMeasured exact left right f jointsDt n period cycles ikr ikl baseline tv rv
  have wheel : ctr.kl ≠ 0 := by
    have kl : ctr.kl = 1 / getFloat b f .driveParams 8 := by simp [ctr, driveControllerBind, exact.div, exact.ofInt]
    rw [kl]
    exact one_div_ne_zero ikl
  change ∀ el er : K, measuredVelocities b.floats ctr
    (n * ((jointVelocities b.floats ctr (getFloat b f .driveParams 12) tv rv).1 - el))
    (n * ((jointVelocities b.floats ctr (getFloat b f .driveParams 12) tv rv).2 - er)) = _ at measured
  generalize jointVelocities b.floats ctr (getFloat b f .driveParams 12) tv rv = speeds at measured
  obtain ⟨jlv, jrv⟩ := speeds
  refine ⟨driveUpdateMeasures exact, fun _ _ _ => driveControllerAsks b, ?_, fun x y theta leftLow leftHigh rightLow rightHigh
    leftTicksLow leftTicksHigh rightTicksLow rightTicksHigh => ?_⟩
  · have none := measured 0 0
    simpa only [sub_zero, mul_zero, add_zero, zero_div] using none
  · have leftError := (exact.toInt16 jlv leftLow leftHigh).1
    have rightError := (exact.toInt16 jrv rightLow rightHigh).1
    have truncated := measured (jlv - b.floats.toInt16 jlv) (jrv - b.floats.toInt16 jrv)
    rw [toInt16Fits leftTicksLow leftTicksHigh, toInt16Fits rightTicksLow rightTicksHigh]
    have last : (odometry b.floats ctr x y theta _ _).2.2.2 = _ :=
      odometryMeasures exact x y theta (n * b.floats.toInt16 jlv) (n * b.floats.toInt16 jrv)
    rw [exact.ofInt, exact.ofInt, Int.cast_mul, Int.cast_mul, Int.cast_natCast] at last
    rw [sub_sub_cancel, sub_sub_cancel] at truncated
    have velocities := last.trans truncated
    have tvm := congrArg Prod.fst velocities
    have rvm := congrArg Prod.snd velocities
    dsimp only at tvm rvm ⊢
    rw [tvm, rvm]
    exact ⟨errorTv period leftError rightError wheel tv, errorRv period leftError rightError wheel baseline rv⟩

end Agree

/- The default parameters, at half a meter and one radian per second: the left joint is asked for 29.75 ticks a cycle, the
right one for 70.25 the other way. -/
def benchController : DifferentialDriveController Rat :=
  (driveControllerBind bench .zeroed .zeroed (bench.floats.mul (1 / 100) (bench.floats.ofInt 2)) (1 / 100)
    (powerOn bench fun _ => 0xFF)).driveController

def benchSpeeds : Rat × Rat :=
  jointVelocities bench.floats benchController (getFloat bench (powerOn bench fun _ => 0xFF) .driveParams 12) (1 / 2) 1

theorem benchVelocities :
    UpdateMeasures bench benchDrive ∧ ControlAsks bench benchDrive 1 0 ∧
    measuredVelocities bench.floats benchController (2 * (119 / 4)) (2 * (-281 / 4)) = (1 / 2, 1) ∧
    let (_, _, _, tvm, rvm) := odometry bench.floats benchController 0 0 0 58 (-140)
    |tvm - 1 / 2| < (|benchController.kl| + |benchController.kr|) / (2 * (1 / 100)) ∧
      |rvm - 1| < (|benchController.kl| + |benchController.kr|) / (|81 / 200| * (1 / 100)) := by
  have agree := kinematicsAgree (b := bench) rationalsExact .zeroed .zeroed (powerOn bench fun _ => 0xFF) (1 / 100) 2
    (by decide +kernel) (by decide) (by decide +kernel) (by decide +kernel) (by decide +kernel) (1 / 2) 1
  have base : getFloat bench (powerOn bench fun _ => 0xFF) .driveParams 12 = 81 / 200 := by decide +kernel
  have left : toInt16 (2 * bench.floats.toInt16 benchSpeeds.1) = 58 := by decide +kernel
  have right : toInt16 (2 * bench.floats.toInt16 benchSpeeds.2) = -140 := by decide +kernel
  refine ⟨agree.1 _, agree.2.1 _ 1 0 (by decide +kernel) (by decide +kernel) (by decide), Eq.trans (by decide +kernel)
    agree.2.2.1, ?_⟩
  rw [← left, ← right, ← base]
  exact agree.2.2.2 0 0 0 (by decide +kernel) (by decide +kernel) (by decide +kernel) (by decide +kernel)
    (by decide +kernel) (by decide +kernel) (by decide +kernel) (by decide +kernel)

end OrazioLogger.Firmware
