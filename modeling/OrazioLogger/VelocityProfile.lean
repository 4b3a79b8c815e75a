import OrazioLogger.Kinematics
import OrazioLogger.Support.Saturation

/-! The velocities DifferentialDriveController_update adjusts, in exact arithmetic: how far they go in a cycle. -/
namespace OrazioLogger.Firmware
open ByteMemory Saturation
open OrazioClient (load32)

variable {F K : Type}

/-! What the update stores. -/

/- The velocities the next update adjusts. -/
def nextAdjusted (b : Board F) (f : State F) : F × F :=
  let param := getFloat b f .driveParams
  let measured := (nextOdometry b f).2.2.2
  adjusted b.floats f.driveController (param 24) (param 16) (param 28) (getFloat b f .driveControl 4)
    (getFloat b f .driveControl 8) measured.1 measured.2

theorem driveUpdateAdjusts (b : Board F) (f : State F) :
    load32 ((driveUpdate b f).globals .driveStatus) 32 = b.floats.toBits (nextAdjusted b f).1 ∧
      load32 ((driveUpdate b f).globals .driveStatus) 36 = b.floats.toBits (nextAdjusted b f).2 := by
  obtain ⟨later, globals, controller, advances⟩ := driveUpdateAdvances b f
  have next : nextAdjusted b f = adjusted b.floats later.driveController (getFloat b later .driveParams 24)
      (getFloat b later .driveParams 16) (getFloat b later .driveParams 28) (getFloat b later .driveControl 4)
      (getFloat b later .driveControl 8)
      (odometry b.floats later.driveController (getFloat b later .driveStatus 4) (getFloat b later .driveStatus 8)
        (getFloat b later .driveStatus 12) (wheelTicks f .left) (wheelTicks f .right)).2.2.2.1
      (odometry b.floats later.driveController (getFloat b later .driveStatus 4) (getFloat b later .driveStatus 8)
        (getFloat b later .driveStatus 12) (wheelTicks f .left) (wheelTicks f .right)).2.2.2.2 := by
    unfold nextAdjusted nextOdometry
    dsimp only
    simp only [getFloat, globals, controller]
  rw [advances, next]
  unfold driveAdvance
  dsimp only
  rw [controller]
  unfold setVelocities
  dsimp only
  simp (disch := decide) only [setFloatApart, setFloatBits]
  exact ⟨rfl, rfl⟩

/-! The profile. -/

/- What `DifferentialDriveController_init` computes from the parameters and the length of a cycle. -/
structure ProfileBound (b : Board F) (f : State F) (dt : F) : Prop where
  maxDtv : f.driveController.maxDtv = b.floats.mul (getFloat b f .driveParams 20) dt
  maxDrv : f.driveController.maxDrv = b.floats.mul (getFloat b f .driveParams 32) dt

theorem controllerProfile (b : Board F) (left right : JointController) (dt jointsDt : F) (f : State F) :
    ProfileBound b (driveControllerBind b left right dt jointsDt f) dt := ⟨rfl, rfl⟩

section Profile
variable [Field K] [LinearOrder K]

structure ExactOrder (fl : Floats K) : Prop extends Exact fl where
  lt : ∀ x y, fl.lt x y = decide (x < y)
  neg : ∀ x, fl.neg x = -x

/- The velocities within their limits, and within reach of those measured in a cycle of `dt`. -/
structure WithinProfile (b : Board K) (f : State K) (dt desTv tvm rvm : K) (velocities : K × K) : Prop where
  translational : |velocities.1| ≤ getFloat b f .driveParams 16
  rotational : |velocities.2| ≤ getFloat b f .driveParams 28
  rotationalChange : |velocities.2 - rvm| ≤ getFloat b f .driveParams 32 * dt
  translationalChange : |velocities.1 - tvm| ≤ (if desTv = 0 then getFloat b f .driveParams 24 else getFloat b f .driveParams 20) * dt

variable [IsStrictOrderedRing K]

theorem clampFloatSaturates {fl : Floats K} (exact : ExactOrder fl) {threshold : K} (nonneg : 0 ≤ threshold) (value : K) :
    clampFloat fl value threshold = saturate threshold value := by
  unfold clampFloat
  rw [exact.lt, exact.lt, exact.neg]
  by_cases above : threshold < value
  · rw [if_pos (decide_eq_true above), saturateHigh nonneg above.le]
  rw [if_neg (by simpa using above)]
  by_cases under : value < -threshold
  · rw [if_pos (decide_eq_true under), saturateLow under.le]
  · rw [if_neg (by simpa using under), saturateInside (abs_le.mpr ⟨not_lt.mp under, not_lt.mp above⟩)]

theorem adjustedApproaches {fl : Floats K} (exact : ExactOrder fl) (ctr : DifferentialDriveController K)
    {brake maxTv maxRv : K} (tv : 0 ≤ maxTv) (rv : 0 ≤ maxRv) (brakes : 0 ≤ brake) (dtv : 0 ≤ ctr.maxDtv) (drv : 0 ≤ ctr.maxDrv)
    (desTv desRv tvm rvm : K) : adjusted fl ctr brake maxTv maxRv desTv desRv tvm rvm =
      (saturate maxTv (approach (if desTv = 0 then brake else ctr.maxDtv) tvm desTv),
        saturate maxRv (approach ctr.maxDrv rvm desRv)) := by
  have limit : (if fl.eq desTv (fl.ofInt 0) then brake else ctr.maxDtv) = if desTv = 0 then brake else ctr.maxDtv := by
    simp only [exact.eq, exact.ofInt, Int.cast_zero, decide_eq_true_eq]
  have nonneg : 0 ≤ if desTv = 0 then brake else ctr.maxDtv := by
    split
    · exact brakes
    · exact dtv
  unfold adjusted approach
  dsimp only
  rw [limit]
  simp only [exact.sub, exact.add, clampFloatSaturates exact nonneg, clampFloatSaturates exact drv, clampFloatSaturates exact tv,
    clampFloatSaturates exact rv]

/- The velocities stay within the profile but for a stop: braking is not limited by the length of the cycle. -/
theorem velocityProfile {b : Board K} (exact : ExactOrder b.floats) (f : State K) (dt : K) (bound : ProfileBound b f dt)
    (positive : 0 < dt) (limits : ∀ offset ∈ [16, 20, 24, 28, 32], 0 ≤ getFloat b f .driveParams offset) :
    (∀ desTv desRv tvm rvm : K, |tvm| ≤ getFloat b f .driveParams 16 → |rvm| ≤ getFloat b f .driveParams 28 →
      (WithinProfile b f dt desTv tvm rvm (adjusted b.floats f.driveController (getFloat b f .driveParams 24)
          (getFloat b f .driveParams 16) (getFloat b f .driveParams 28) desTv desRv tvm rvm) ↔
        desTv ≠ 0 ∨ |tvm| ≤ getFloat b f .driveParams 24 * dt ∨
          getFloat b f .driveParams 24 ≤ getFloat b f .driveParams 24 * dt)) ∧
    load32 ((driveUpdate b f).globals .driveStatus) 32 = b.floats.toBits (nextAdjusted b f).1 ∧
    load32 ((driveUpdate b f).globals .driveStatus) 36 = b.floats.toBits (nextAdjusted b f).2 := by
  refine ⟨fun desTv desRv tvm rvm tvInside rvInside => ?_, driveUpdateAdjusts b f⟩
  have maxTv := limits 16 (by decide)
  have maxRv := limits 28 (by decide)
  have brake := limits 24 (by decide)
  have dtv : f.driveController.maxDtv = getFloat b f .driveParams 20 * dt := bound.maxDtv.trans (exact.mul _ _)
  have drv : f.driveController.maxDrv = getFloat b f .driveParams 32 * dt := bound.maxDrv.trans (exact.mul _ _)
  have dtvNonneg : 0 ≤ getFloat b f .driveParams 20 * dt := mul_nonneg (limits 20 (by decide)) positive.le
  have drvNonneg : 0 ≤ getFloat b f .driveParams 32 * dt := mul_nonneg (limits 32 (by decide)) positive.le
  rw [adjustedApproaches exact f.driveController maxTv maxRv brake (dtv ▸ dtvNonneg) (drv ▸ drvNonneg), dtv, drv]
  have turning := approachLimited drvNonneg rvInside desRv
  by_cases stop : desTv = 0
  · subst desTv
    have stopping := approachZero brake tvInside
    have limited := approachLimited brake tvInside 0
    rw [if_pos rfl]
    constructor
    · intro within
      have change := within.translationalChange
      rw [if_pos rfl, stopping] at change
      exact .inr (min_le_iff.mp change)
    · intro condition
      refine ⟨limited.1, turning.1, turning.2, ?_⟩
      rw [if_pos rfl, stopping]
      exact min_le_iff.mpr (condition.resolve_left fun moving => moving rfl)
  · have moving := approachLimited dtvNonneg tvInside desTv
    rw [if_neg stop]
    refine iff_of_true ⟨moving.1, turning.1, turning.2, ?_⟩ (.inl stop)
    rw [if_neg stop]
    exact moving.2

end Profile

theorem rationalsExactOrder : ExactOrder rationals := ⟨rationalsExact, fun _ _ => rfl, fun _ => rfl⟩

/- The default parameters in cycles of 20 ms. -/
def benchProfile : State Rat := driveControllerBind bench .zeroed .zeroed (1 / 50) (1 / 100) (powerOn bench fun _ => 0xFF)

def benchAdjusted (desTv desRv tvm rvm : Rat) : Rat × Rat :=
  adjusted bench.floats benchProfile.driveController (getFloat bench benchProfile .driveParams 24)
    (getFloat bench benchProfile .driveParams 16) (getFloat bench benchProfile .driveParams 28) desTv desRv tvm rvm

/- From standstill to half a meter per second. -/
theorem benchStarts : WithinProfile bench benchProfile (1 / 50) (1 / 2) 0 0 (benchAdjusted (1 / 2) 1 0 0) :=
  ((velocityProfile rationalsExactOrder benchProfile (1 / 50) (controllerProfile ..) (by decide +kernel) (by decide +kernel)).1
    (1 / 2) 1 0 0 (by decide +kernel) (by decide +kernel)).mpr (.inl (by decide +kernel))

/- At one meter per second a stop takes a single cycle. -/
theorem brakeIgnoresCycle : ¬ ∀ (f : State Rat) (dt : Rat), ProfileBound bench f dt → 0 < dt →
    (∀ offset ∈ [16, 20, 24, 28, 32], 0 ≤ getFloat bench f .driveParams offset) → ∀ desTv desRv tvm rvm : Rat,
    |tvm| ≤ getFloat bench f .driveParams 16 → |rvm| ≤ getFloat bench f .driveParams 28 →
    WithinProfile bench f dt desTv tvm rvm (adjusted bench.floats f.driveController (getFloat bench f .driveParams 24)
      (getFloat bench f .driveParams 16) (getFloat bench f .driveParams 28) desTv desRv tvm rvm) := by
  intro always
  have within := always benchProfile (1 / 50) (controllerProfile ..) (by decide +kernel) (by decide +kernel) 0 0 1 0
    (by decide +kernel) (by decide +kernel)
  exact absurd within.translationalChange (by decide +kernel)

end OrazioLogger.Firmware
