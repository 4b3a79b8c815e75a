import OrazioLogger.MainLoop
import OrazioLogger.Support.Countdown
import OrazioLogger.Support.Saturation
import Mathlib.Algebra.Order.Ring.Abs
import Mathlib.Algebra.Order.Ring.Int
import Mathlib.Data.List.Induction

/-! One joint over a sequence of control records and encoder readings: its outputs, its limits and what it remembers. -/
namespace OrazioLogger.Firmware
open ByteMemory OrazioPackets Saturation Countdown
open OrazioClient (load16 store16 load16Store16)

variable {F : Type}

/-! The parameters and the memory of a joint. -/

structure PidParams where
  kp : Int
  ki : Int
  kd : Int
  maxI : Int
  minPwm : Int
  maxPwm : Int
  maxSpeed : Int
  slope : Int
  deriving DecidableEq, Repr

def pidParams (f : State F) (i : Nat) : PidParams where
  kp := jointWord f i 5
  ki := jointWord f i 7
  kd := jointWord f i 9
  maxI := jointWord f i 11
  minPwm := jointWord f i 13
  maxPwm := jointWord f i 15
  maxSpeed := jointWord f i 17
  slope := jointWord f i 19

/- What an output can still depend on, besides the parameters. -/
structure JointMemory where
  output : Int
  errorIntegral : Int
  previousError : Int
  position : UInt16
  deriving DecidableEq, Repr

def jointMemory (f : State F) (i : Nat) : JointMemory where
  output := (f.jointControllers i).output
  errorIntegral := (f.jointControllers i).errorIntegral
  previousError := (f.jointControllers i).previousError
  position := encoderPosition f i

/- What a joint is given at a tick. -/
structure Sample where
  command : JointCommand
  encoder : UInt16
  deriving DecidableEq, Repr

def commanded (f : State F) (i : Nat) (command : JointCommand) : State F :=
  setByte (setWord f .jointControl (jointControlAt i + 5) command.speed) .jointControl (jointControlAt i + 7) command.mode

def sampled (i : Nat) (f : State F) (sample : Sample) : State F :=
  jointControllerHandle sample.encoder i (commanded f i sample.command)

structure PidStep where
  desired : Int
  error : Int
  ramp : Int
  integral : Int
  command : Int
  output : Int

/- The case `JointPID` of the joint. -/
def pidOf (q : PidParams) (speed encoderSpeed integral previous : Int) : PidStep :=
  let desired := clamp speed q.maxSpeed
  let error := clamp (toInt16 (desired - encoderSpeed)) q.slope
  let ramp := toInt16 (encoderSpeed + error)
  let integral := clamp (toInt16 (integral + error)) q.maxI
  let dError := toInt16 (error - previous)
  let command := toInt16 (ramp + (q.kp * error + q.ki * integral + q.kd * dError).tdiv 32)
  let output := clamp command q.maxPwm
  ⟨desired, error, ramp, integral, command, if output < q.minPwm ∧ output > -q.minPwm then 0 else output⟩

def jointStep (q : PidParams) (m : JointMemory) (sample : Sample) : JointMemory :=
  let encoderSpeed := signed16 (sample.encoder - m.position)
  let m := { m with position := sample.encoder }
  if sample.command.mode = jointDisabled then { m with output := 0, errorIntegral := 0 }
  else if sample.command.mode = jointPwm then { m with output := signed16 sample.command.speed }
  else if sample.command.mode = jointPid then
    let r := pidOf q (signed16 sample.command.speed) encoderSpeed m.errorIntegral m.previousError
    { m with output := r.output, errorIntegral := r.integral, previousError := r.error }
  else m

/- The controller points to the entries of its own joint. -/
structure JointBound (f : State F) (i : Nat) : Prop where
  params : (f.jointControllers i).params = some i
  status : (f.jointControllers i).status = some i
  control : (f.jointControllers i).control = some i

section Handle
variable {f : State F} {i : Nat}

theorem pidStepOf (f : State F) (i : Nat) (speed encoderSpeed : Int) (j : JointController) :
    pidStep f i speed encoderSpeed j =
      ((pidOf (pidParams f i) speed encoderSpeed j.errorIntegral j.previousError).desired, { j with
        error := (pidOf (pidParams f i) speed encoderSpeed j.errorIntegral j.previousError).error
        rampReference := (pidOf (pidParams f i) speed encoderSpeed j.errorIntegral j.previousError).ramp
        errorIntegral := (pidOf (pidParams f i) speed encoderSpeed j.errorIntegral j.previousError).integral
        output := (pidOf (pidParams f i) speed encoderSpeed j.errorIntegral j.previousError).output
        previousError := (pidOf (pidParams f i) speed encoderSpeed j.errorIntegral j.previousError).error }) := rfl

theorem commandedOutside (f : State F) (i : Nat) (command : JointCommand) {g : Global} (other : g ≠ .jointControl) :
    (commanded f i command).globals g = f.globals g := by
  rw [commanded, setByte, setOther _ _ _ other, setWord, setOther _ _ _ other]

theorem commandedRead (f : State F) (i : Nat) (command : JointCommand) :
    jointMode (commanded f i command) i = command.mode ∧ jointSpeed (commanded f i command) i = signed16 command.speed := by
  refine ⟨setByteSame .., ?_⟩
  rw [jointSpeed, commanded, load16, setByteOutside _ _ _ _ (by omega), setByteOutside _ _ _ _ (by omega), setWord, setSame]
  exact congrArg signed16 (load16Store16 _ _ _)

/- The status of the joint is written first. -/
def reported (enc : UInt16) (i : Nat) (f : State F) : State F :=
  let encoderSpeed := signed16 (enc - encoderPosition f i)
  let mode := jointMode f i
  let output := (f.jointControllers i).output
  let f := setWord f .jointStatus (jointStatusAt i + 7) (ofInt16 encoderSpeed)
  let f := setWord f .jointStatus (jointStatusAt i + 5) enc
  let f := setByte f .jointStatus (jointStatusAt i + 15) mode
  setWord f .jointStatus (jointStatusAt i + 11) (ofInt16 output)

theorem reportedOutside (enc : UInt16) (i : Nat) (f : State F) {g : Global} (other : g ≠ .jointStatus) :
    (reported enc i f).globals g = f.globals g := by
  simp only [reported, setWord, setByte, setOther _ _ _ other]

theorem reportedPosition (enc : UInt16) (i : Nat) (f : State F) : encoderPosition (reported enc i f) i = enc := by
  rw [encoderPosition, reported, load16, setWordOutside _ _ _ _ (by omega), setWordOutside _ _ _ _ (by omega),
    setByteOutside _ _ _ _ (by omega), setByteOutside _ _ _ _ (by omega), setWord, setSame]
  exact load16Store16 _ _ _

theorem pidParamsOf {later : State F} (same : later.globals .jointParams = f.globals .jointParams) :
    pidParams later i = pidParams f i := by
  simp only [pidParams, jointWord, same]

theorem handleBound (bound : JointBound f i) (enc : UInt16) : jointControllerHandle enc i f =
    let j := f.jointControllers i
    let r := pidOf (pidParams f i) (jointSpeed f i) (signed16 (enc - encoderPosition f i)) j.errorIntegral j.previousError
    let f' := reported enc i f
    if jointMode f i = jointDisabled then setController f' i { j with output := 0, errorIntegral := 0 }
    else if jointMode f i = jointPwm then setController f' i { j with output := jointSpeed f i }
    else if jointMode f i = jointPid then
      setController (setWord f' .jointStatus (jointStatusAt i + 9) (ofInt16 r.desired)) i { j with
        error := r.error, rampReference := r.ramp, errorIntegral := r.integral, output := r.output
        previousError := r.error }
    else f' := by
  have speed : jointSpeed (reported enc i f) i = jointSpeed f i := by
    rw [jointSpeed, reportedOutside _ _ _ (by decide), jointSpeed]
  have params := pidParamsOf (i := i) (reportedOutside enc i f (g := .jointParams) (by decide))
  rw [← params, ← speed]
  unfold jointControllerHandle
  dsimp only
  split
  · rename_i s c p status control own
    cases bound.status.symm.trans status
    cases bound.control.symm.trans control
    cases bound.params.symm.trans own
    rw [pidStepOf]
    rfl
  · rename_i unbound
    exact absurd bound.params (unbound _ _ _ bound.status bound.control)

theorem setControllerSame (f : State F) (i : Nat) (c : JointController) : (setController f i c).jointControllers i = c :=
  Function.update_self ..

/- The state after a tick in which the controller becomes `c`. -/
theorem controllerStep {later : State F} (bound : JointBound f i) {c : JointController} {position : UInt16}
    (own : c.params = (f.jointControllers i).params ∧ c.status = (f.jointControllers i).status ∧
      c.control = (f.jointControllers i).control)
    (params : later.globals .jointParams = f.globals .jointParams) (at_ : encoderPosition later i = position) :
    JointBound (setController later i c) i ∧ pidParams (setController later i c) i = pidParams f i ∧
      jointMemory (setController later i c) i = ⟨c.output, c.errorIntegral, c.previousError, position⟩ := by
  have now := setControllerSame later i c
  refine ⟨⟨?_, ?_, ?_⟩, pidParamsOf params, ?_⟩
  · rw [now, own.1, bound.params]
  · rw [now, own.2.1, bound.status]
  · rw [now, own.2.2, bound.control]
  · rw [jointMemory, now, ← at_]
    rfl

theorem sampledStep (bound : JointBound f i) (sample : Sample) : JointBound (sampled i f sample) i ∧
    pidParams (sampled i f sample) i = pidParams f i ∧
      jointMemory (sampled i f sample) i = jointStep (pidParams f i) (jointMemory f i) sample := by
  have boundNow : JointBound (commanded f i sample.command) i := ⟨bound.params, bound.status, bound.control⟩
  obtain ⟨mode, speed⟩ := commandedRead f i sample.command
  have params : pidParams (commanded f i sample.command) i = pidParams f i :=
    pidParamsOf (commandedOutside f i _ (by decide))
  have position : encoderPosition (commanded f i sample.command) i = encoderPosition f i := by
    rw [encoderPosition, commandedOutside f i _ (by decide), encoderPosition]
  have table : (reported sample.encoder i (commanded f i sample.command)).globals .jointParams = f.globals .jointParams :=
    (reportedOutside _ _ _ (by decide)).trans (commandedOutside f i _ (by decide))
  have sampledAt := reportedPosition sample.encoder i (commanded f i sample.command)
  rw [sampled, handleBound boundNow, jointStep]
  dsimp only
  rw [mode, speed, params, position]
  by_cases disabled : sample.command.mode = jointDisabled
  · rw [if_pos disabled, if_pos disabled]
    exact controllerStep bound ⟨rfl, rfl, rfl⟩ table sampledAt
  rw [if_neg disabled, if_neg disabled]
  by_cases pwm : sample.command.mode = jointPwm
  · rw [if_pos pwm, if_pos pwm]
    exact controllerStep bound ⟨rfl, rfl, rfl⟩ table sampledAt
  rw [if_neg pwm, if_neg pwm]
  by_cases pid : sample.command.mode = jointPid
  · rw [if_pos pid, if_pos pid]
    refine controllerStep bound ⟨rfl, rfl, rfl⟩ ?_ ?_
    · rw [setWord, setOther _ _ _ (by decide), table]
    · refine Eq.trans ?_ sampledAt
      rw [encoderPosition, load16, setWordOutside _ _ _ _ (by omega), setWordOutside _ _ _ _ (by omega)]
      rfl
  · rw [if_neg pid, if_neg pid]
    refine ⟨⟨bound.params, bound.status, bound.control⟩, pidParamsOf table, ?_⟩
    rw [jointMemory, sampledAt]
    rfl

theorem sampledRun (bound : JointBound f i) (samples : List Sample) : JointBound (samples.foldl (sampled i) f) i ∧
    pidParams (samples.foldl (sampled i) f) i = pidParams f i ∧
      jointMemory (samples.foldl (sampled i) f) i = samples.foldl (jointStep (pidParams f i)) (jointMemory f i) := by
  induction samples generalizing f with
  | nil => exact ⟨bound, rfl, rfl⟩
  | cons sample rest ih =>
    obtain ⟨next, params, memory⟩ := sampledStep bound sample
    obtain ⟨last, same, ends⟩ := ih next
    rw [params] at same ends
    exact ⟨last, same, ends.trans (by rw [memory, List.foldl_cons])⟩

end Handle

/-! Limits of the output. -/

def outputAfter (i : Nat) (f : State F) (samples : List Sample) : Int :=
  ((samples.foldl (sampled i) f).jointControllers i).output

/- What the comments of `max_pwm` and `min_pwm` promise. -/
def Limited (q : PidParams) (output : Int) : Prop := |output| ≤ q.maxPwm ∧ (output = 0 ∨ q.minPwm ≤ |output|)

/- A PWM record asks for an output within the limits. -/
def PwmLimited (q : PidParams) (sample : Sample) : Prop :=
  sample.command.mode = jointPwm → Limited q (signed16 sample.command.speed)

section Limits
variable {q : PidParams} {f : State F} {i : Nat}

theorem clampSaturates {value : Int} (nonneg : 0 ≤ value) (word : value ≤ 32767) (v : Int) :
    clamp v value = saturate value v := by
  unfold clamp saturate toInt16
  grind

theorem signed16Bounds (v : UInt16) : -32768 ≤ signed16 v ∧ signed16 v ≤ 32767 := by
  unfold signed16
  have below := v.toNat_lt
  split <;> rename_i side
  · have := UInt16.lt_iff_toNat_lt.mp side
    change v.toNat < 32768 at this
    omega
  · have := UInt16.not_lt.mp side
    have := UInt16.le_iff_toNat_le.mp this
    change 32768 ≤ v.toNat at this
    omega

/- The end of a PID step. -/
theorem pidOutput (maxPwm : 0 ≤ q.maxPwm ∧ q.maxPwm ≤ 32767) (speed encoderSpeed integral previous : Int) :
    (pidOf q speed encoderSpeed integral previous).output =
      limit q.maxPwm q.minPwm (pidOf q speed encoderSpeed integral previous).command := by
  unfold pidOf
  dsimp only
  rw [clampSaturates maxPwm.1 maxPwm.2, limit, deadZone]
  refine if_congr ?_ rfl rfl
  rw [abs_lt, and_comm]

theorem limitedPid (maxPwm : 0 ≤ q.maxPwm ∧ q.maxPwm ≤ 32767) (speed encoderSpeed integral previous : Int) :
    Limited q (pidOf q speed encoderSpeed integral previous).output := by
  rw [pidOutput maxPwm]
  exact ⟨limitAbs maxPwm.1 _, limitStrong _⟩

/- Every mode but the PWM mode keeps the output limited. -/
theorem limitedStep (maxPwm : 0 ≤ q.maxPwm ∧ q.maxPwm ≤ 32767) {m : JointMemory} (start : Limited q m.output)
    (sample : Sample) : Limited q (jointStep q m sample).output ↔ PwmLimited q sample := by
  unfold jointStep PwmLimited
  dsimp only
  by_cases disabled : sample.command.mode = jointDisabled
  · rw [if_pos disabled, disabled]
    refine iff_of_true ⟨?_, Or.inl rfl⟩ fun pwm => absurd pwm (by decide)
    change |(0 : Int)| ≤ _
    rw [abs_zero]
    exact maxPwm.1
  rw [if_neg disabled]
  by_cases pwm : sample.command.mode = jointPwm
  · rw [if_pos pwm]
    exact ⟨fun limited _ => limited, fun limited => limited pwm⟩
  rw [if_neg pwm]
  refine iff_of_true ?_ fun is_pwm => absurd is_pwm pwm
  split
  · exact limitedPid maxPwm _ _ _ _
  · exact start

theorem maxPwmWord (f : State F) (i : Nat) : (pidParams f i).maxPwm ≤ 32767 := (signed16Bounds _).2

theorem outputsLimited (zeroed : f.jointControllers i = jointControllerInit i .zeroed)
    (maxPwm : 0 ≤ (pidParams f i).maxPwm) (samples : List Sample) :
    AfterEach (fun past => Limited (pidParams f i) (outputAfter i f past)) samples ↔
      ∀ sample ∈ samples, PwmLimited (pidParams f i) sample := by
  have bound : JointBound f i := by constructor <;> rw [zeroed] <;> rfl
  have memory : ∀ past, outputAfter i f past = (past.foldl (jointStep (pidParams f i)) (jointMemory f i)).output :=
    fun past => congrArg JointMemory.output (sampledRun bound past).2.2
  have start : Limited (pidParams f i) (outputAfter i f []) := by
    rw [outputAfter, List.foldl_nil, zeroed]
    refine ⟨?_, Or.inl rfl⟩
    change |(0 : Int)| ≤ _
    rwa [abs_zero]
  suffices both : (AfterEach (fun past => Limited (pidParams f i) (outputAfter i f past)) samples ↔
      ∀ sample ∈ samples, PwmLimited (pidParams f i) sample) ∧
      (AfterEach (fun past => Limited (pidParams f i) (outputAfter i f past)) samples →
        Limited (pidParams f i) (outputAfter i f samples)) from both.1
  induction samples using List.reverseRecOn with
  | nil => exact ⟨iff_of_true (afterEachNil _) (fun _ none => nomatch none), fun _ => start⟩
  | append_singleton past sample ih =>
    obtain ⟨same, last⟩ := ih
    rw [afterEachSnoc, same]
    refine ⟨?_, fun all => all.2⟩
    simp only [List.mem_append, List.mem_singleton, or_imp, forall_and, forall_eq]
    refine and_congr_right fun before => ?_
    rw [memory, List.foldl_append, List.foldl_cons, List.foldl_nil]
    refine limitedStep ⟨maxPwm, maxPwmWord f i⟩ ?_ sample
    rw [← memory]
    exact last (same.mpr before)

end Limits

/-! The PID step over unbounded integers. -/

def exactError (q : PidParams) (speed encoderSpeed : Int) : Int :=
  saturate q.slope (saturate q.maxSpeed speed - encoderSpeed)

def exactCommand (q : PidParams) (speed encoderSpeed integral previous : Int) : Int :=
  let error := exactError q speed encoderSpeed
  let integral := saturate q.maxI (integral + error)
  encoderSpeed + error + (q.kp * error + q.ki * integral + q.kd * (error - previous)).tdiv 32

def exactOutput (q : PidParams) (speed encoderSpeed integral previous : Int) : Int :=
  limit q.maxPwm q.minPwm (exactCommand q speed encoderSpeed integral previous)

def Word (v : Int) : Prop := -32768 ≤ v ∧ v ≤ 32767

instance (v : Int) : Decidable (Word v) := inferInstanceAs (Decidable (_ ∧ _))

def wrap (v : Int) : Int := v.bmod 65536

/- The command where every quantity is taken modulo 65536 before it is limited. -/
def wrappedCommand (q : PidParams) (speed encoderSpeed integral previous : Int) : Int :=
  let error := saturate q.slope (wrap (saturate q.maxSpeed speed - encoderSpeed))
  let integral := saturate q.maxI (wrap (integral + error))
  wrap (encoderSpeed + error + (q.kp * error + q.ki * integral + q.kd * wrap (error - previous)).tdiv 32)

/- No quantity leaves 16 bits where it counts. -/
structure Unnarrowed (q : PidParams) (speed encoderSpeed integral previous : Int) : Prop where
  difference : q.slope = 0 ∨ Word (saturate q.maxSpeed speed - encoderSpeed)
  accumulated : q.ki = 0 ∨ q.maxI = 0 ∨ Word (integral + exactError q speed encoderSpeed)
  derivative : q.kd = 0 ∨ Word (exactError q speed encoderSpeed - previous)
  command : Word (exactCommand q speed encoderSpeed integral previous)

def Int32 (v : Int) : Prop := -2 ^ 31 ≤ v ∧ v < 2 ^ 31

/- The products of the gains and their sums, one after the other as C adds them up, in 32 bits. -/
structure FitsInt (q : PidParams) (speed encoderSpeed integral previous : Int) : Prop where
  proportional : Int32 (q.kp * exactError q speed encoderSpeed)
  integrated : Int32 (q.ki * saturate q.maxI (integral + exactError q speed encoderSpeed))
  both : Int32 (q.kp * exactError q speed encoderSpeed +
    q.ki * saturate q.maxI (integral + exactError q speed encoderSpeed))
  derivative : Int32 (q.kd * (exactError q speed encoderSpeed - previous))
  sum : Int32 (q.kp * exactError q speed encoderSpeed +
    q.ki * saturate q.maxI (integral + exactError q speed encoderSpeed) + q.kd * (exactError q speed encoderSpeed - previous))

section Exact
variable {α : Sort*} {q : PidParams} {speed encoderSpeed integral previous : Int}

theorem toInt16Wrap (v : Int) : toInt16 v = wrap v := by
  rw [toInt16, wrap, Int.bmod_def]
  omega

theorem wrapWord {v : Int} (word : Word v) : wrap v = v := by
  rw [← toInt16Wrap, toInt16]
  unfold Word at word
  omega

theorem saturateZero (v : Int) : saturate 0 v = 0 := by
  unfold saturate
  omega

/- The limits of a joint, none of them negative. -/
structure Limits (q : PidParams) : Prop where
  maxI : 0 ≤ q.maxI ∧ q.maxI ≤ 32767
  maxPwm : 0 ≤ q.maxPwm ∧ q.maxPwm ≤ 32767
  maxSpeed : 0 ≤ q.maxSpeed ∧ q.maxSpeed ≤ 32767
  slope : 0 ≤ q.slope ∧ q.slope ≤ 32767

theorem pidCommand (limits : Limits q) :
    (pidOf q speed encoderSpeed integral previous).command = wrappedCommand q speed encoderSpeed integral previous := by
  unfold pidOf wrappedCommand
  dsimp only
  rw [clampSaturates limits.maxSpeed.1 limits.maxSpeed.2, clampSaturates limits.slope.1 limits.slope.2,
    clampSaturates limits.maxI.1 limits.maxI.2]
  simp only [toInt16Wrap]
  exact Int.bmod_add_bmod

theorem Unnarrowed.wrapped (fits : Unnarrowed q speed encoderSpeed integral previous) :
    wrappedCommand q speed encoderSpeed integral previous = exactCommand q speed encoderSpeed integral previous := by
  have error : saturate q.slope (wrap (saturate q.maxSpeed speed - encoderSpeed)) = exactError q speed encoderSpeed := by
    rcases fits.difference with flat | word
    · rw [exactError, flat, saturateZero, saturateZero]
    · rw [exactError, wrapWord word]
  have accumulated : q.ki * saturate q.maxI (wrap (integral + exactError q speed encoderSpeed)) =
      q.ki * saturate q.maxI (integral + exactError q speed encoderSpeed) := by
    rcases fits.accumulated with none | flat | word
    · rw [none, Int.zero_mul, Int.zero_mul]
    · rw [flat, saturateZero, saturateZero]
    · rw [wrapWord word]
  have derivative : q.kd * wrap (exactError q speed encoderSpeed - previous) =
      q.kd * (exactError q speed encoderSpeed - previous) := by
    rcases fits.derivative with none | word
    · rw [none, Int.zero_mul, Int.zero_mul]
    · rw [wrapWord word]
  have command := wrapWord fits.command
  unfold exactCommand at command
  unfold wrappedCommand exactCommand
  dsimp only at command ⊢
  rw [error, accumulated, derivative, command]

theorem pidExact (limits : Limits q) (fits : Unnarrowed q speed encoderSpeed integral previous) :
    (pidOf q speed encoderSpeed integral previous).output = exactOutput q speed encoderSpeed integral previous := by
  rw [pidOutput limits.maxPwm, pidCommand limits, fits.wrapped]
  rfl

/- The gains of a joint are words. -/
structure Gains (q : PidParams) : Prop where
  kp : |q.kp| ≤ 32768
  ki : |q.ki| ≤ 32768
  kd : |q.kd| ≤ 32768

theorem productBound {gain value most : Int} (small : |gain| ≤ 32768) (near : |value| ≤ most) : |gain * value| ≤ 32768 * most := by
  rw [abs_mul]
  exact mul_le_mul small near (abs_nonneg value) (by decide)

theorem int32Abs {v : Int} (small : |v| < 2 ^ 31) : Int32 v := by
  obtain ⟨low, high⟩ := abs_lt.mp small
  exact ⟨low.le, high⟩

/- What fits 16 bits where it counts fits an int of 32 bits everywhere. -/
theorem Unnarrowed.fitsInt (limits : Limits q) (gains : Gains q) (word : Word encoderSpeed)
    (fits : Unnarrowed q speed encoderSpeed integral previous) : FitsInt q speed encoderSpeed integral previous := by
  have error : |exactError q speed encoderSpeed| ≤ 32767 := (saturateAbs limits.slope.1 _).trans limits.slope.2
  have kept : |saturate q.maxI (integral + exactError q speed encoderSpeed)| ≤ 32767 :=
    (saturateAbs limits.maxI.1 _).trans limits.maxI.2
  have derivative : |q.kd * (exactError q speed encoderSpeed - previous)| ≤ 32768 * 32768 := by
    rcases fits.derivative with none | small
    · rw [none, Int.zero_mul, abs_zero]
      decide
    · exact productBound gains.kd (abs_le.mpr ⟨small.1, small.2.trans (by decide)⟩)
  have command := fits.command
  unfold exactCommand Word at command
  dsimp only at command
  have proportional := productBound gains.kp error
  have integrated := productBound gains.ki kept
  refine ⟨int32Abs (by omega), int32Abs (by omega), int32Abs ?_, int32Abs (by omega), int32Abs ?_⟩
  · refine (abs_add_le _ _).trans_lt ?_
    omega
  · generalize q.kp * _ + q.ki * _ + q.kd * (_ - previous) = x at command ⊢
    generalize exactError q speed encoderSpeed = e at command error
    have parts := Int.mul_tdiv_add_tmod x 32
    have below := Int.tmod_lt_of_pos x (show (0 : Int) < 32 by decide)
    have above := Int.lt_tmod_of_pos x (show (0 : Int) < 32 by decide)
    unfold Word at word
    rw [abs_le] at error
    rw [abs_lt]
    omega

variable {f : State F} {i : Nat} {enc : UInt16}

/- The quantities of a PID step of joint `i`, as the condition and the exact formulas take them. -/
def AtJoint (P : PidParams → Int → Int → Int → Int → α) (f : State F) (i : Nat) (enc : UInt16) : α :=
  P (pidParams f i) (jointSpeed f i) (signed16 (enc - encoderPosition f i)) (f.jointControllers i).errorIntegral
    (f.jointControllers i).previousError

/- While nothing that counts leaves its width, the output is the exact one. -/
theorem pidStepExact (bound : JointBound f i) (pid : jointMode f i = jointPid) (maxI : 0 ≤ (pidParams f i).maxI)
    (maxPwm : 0 ≤ (pidParams f i).maxPwm) (maxSpeed : 0 ≤ (pidParams f i).maxSpeed) (slope : 0 ≤ (pidParams f i).slope)
    (enc : UInt16) (fits : AtJoint Unnarrowed f i enc) :
    ((jointControllerHandle enc i f).jointControllers i).output = AtJoint exactOutput f i enc ∧ AtJoint FitsInt f i enc := by
  have limits : Limits (pidParams f i) := ⟨⟨maxI, (signed16Bounds _).2⟩, ⟨maxPwm, (signed16Bounds _).2⟩,
    ⟨maxSpeed, (signed16Bounds _).2⟩, ⟨slope, (signed16Bounds _).2⟩⟩
  have gain (v : UInt16) : |signed16 v| ≤ 32768 := by
    obtain ⟨low, high⟩ := signed16Bounds v
    exact abs_le.mpr ⟨low, high.trans (by decide)⟩
  have output : ((jointControllerHandle enc i f).jointControllers i).output = (AtJoint pidOf f i enc).output := by
    rw [handleBound bound]
    dsimp only
    rw [pid, if_neg (by decide), if_neg (by decide), if_pos rfl]
    rw [setControllerSame]
    rfl
  exact ⟨output.trans (pidExact limits fits), fits.fitsInt limits ⟨gain _, gain _, gain _⟩ (signed16Bounds _)⟩

end Exact

/-! What a disabled joint still remembers. -/

def outputs (i : Nat) : State F → List Sample → List Int
  | _, [] => []
  | f, sample :: rest => ((sampled i f sample).jointControllers i).output :: outputs i (sampled i f sample) rest

def stepOutputs (q : PidParams) : JointMemory → List Sample → List Int
  | _, [] => []
  | m, sample :: rest => (jointStep q m sample).output :: stepOutputs q (jointStep q m sample) rest

section Forget
variable {q : PidParams} {f g : State F} {i : Nat}

theorem outputsStep (bound : JointBound f i) (samples : List Sample) :
    outputs i f samples = stepOutputs (pidParams f i) (jointMemory f i) samples := by
  induction samples generalizing f with
  | nil => rfl
  | cons sample rest ih =>
    obtain ⟨next, params, memory⟩ := sampledStep bound sample
    rw [outputs, stepOutputs, ih next, params, ← memory]
    rfl

/- The past that a disabled joint carries on: all that is left of it is the last error. -/
theorem disabledMemory (m : JointMemory) {sample : Sample} (disabled : sample.command.mode = jointDisabled) :
    jointStep q m sample = ⟨0, 0, m.previousError, sample.encoder⟩ := by
  unfold jointStep
  dsimp only
  rw [if_pos disabled]

/- Whether an error of the past can still reach an output. -/
def Remembered (q : PidParams) (future : List Sample) : Prop :=
  q.kd ≠ 0 ∧ ∃ sample ∈ future, sample.command.mode = jointPid

theorem pidWithoutDerivative (none : q.kd = 0) (speed encoderSpeed integral previous other : Int) :
    pidOf q speed encoderSpeed integral previous = pidOf q speed encoderSpeed integral other := by
  unfold pidOf
  simp only [none, Int.zero_mul]

theorem stepOutputsForget (m : JointMemory) (previous : Int) (future : List Sample)
    (forgotten : ¬ Remembered q future) :
    stepOutputs q { m with previousError := previous } future = stepOutputs q m future := by
  induction future generalizing m previous with
  | nil => rfl
  | cons sample rest ih =>
    have later : ¬ Remembered q rest := fun ⟨gain, s, mem, pid⟩ =>
      forgotten ⟨gain, s, List.mem_cons_of_mem _ mem, pid⟩
    rw [stepOutputs, stepOutputs]
    by_cases pid : sample.command.mode = jointPid
    · have none : q.kd = 0 := not_not.mp fun gain => forgotten ⟨gain, sample, List.mem_cons_self, pid⟩
      have same : jointStep q { m with previousError := previous } sample = jointStep q m sample := by
        unfold jointStep
        dsimp only
        rw [pid, if_neg (by decide), if_neg (by decide), if_pos rfl, if_neg (by decide), if_neg (by decide), if_pos rfl,
          pidWithoutDerivative none _ _ _ previous m.previousError]
      rw [same]
    · have kept : jointStep q { m with previousError := previous } sample =
          { jointStep q m sample with previousError := previous } := by
        unfold jointStep
        dsimp only
        rw [if_neg pid, if_neg pid]
        split
        · rfl
        · split <;> rfl
      rw [kept, ih _ _ later]

theorem disablingForgets (boundF : JointBound f i) (boundG : JointBound g i) (params : pidParams g i = pidParams f i)
    (past other : List Sample) {last lastOther : Sample} (disabled : last.command.mode = jointDisabled)
    (disabledOther : lastOther.command.mode = jointDisabled) (encoder : lastOther.encoder = last.encoder)
    (future : List Sample)
    (forgotten : (jointMemory (other.foldl (sampled i) g) i).previousError =
        (jointMemory (past.foldl (sampled i) f) i).previousError ∨ ¬ Remembered (pidParams f i) future) :
    outputs i ((past ++ [last]).foldl (sampled i) f) future = outputs i ((other ++ [lastOther]).foldl (sampled i) g) future := by
  obtain ⟨nowF, sameF, -⟩ := sampledRun boundF past
  obtain ⟨nowG, sameG, -⟩ := sampledRun boundG other
  obtain ⟨endF, keptF, memoryF⟩ := sampledStep nowF last
  obtain ⟨endG, keptG, memoryG⟩ := sampledStep nowG lastOther
  rw [List.foldl_append, List.foldl_append, List.foldl_cons, List.foldl_nil, List.foldl_cons, List.foldl_nil,
    outputsStep endF, outputsStep endG, keptF, keptG, sameF, sameG, params, memoryF, memoryG, disabledMemory _ disabled,
    disabledMemory _ disabledOther, encoder]
  rcases forgotten with same | forgotten
  · rw [same]
  · exact stepOutputsForget ⟨0, 0, _, last.encoder⟩ _ future forgotten

end Forget

/-! The joints of the bench, as the firmware starts them. -/

def started (f : State Rat) : State Rat := (jointsInit bench f).2

def tuned (offset : Nat) (v : UInt16) (f : State Rat) : State Rat := setWord f .jointParams (jointParam 0 + offset) v

def bootedJoints : State Rat := started (powerOn bench fun _ => 0xFF)

theorem bootedBound : JointBound bootedJoints 0 := by constructor <;> decide +kernel

theorem defaultStepExact :
    let f := commanded bootedJoints 0 ⟨jointPid, 7⟩
    ((jointControllerHandle 0 0 f).jointControllers 0).output = AtJoint exactOutput f 0 0 ∧ AtJoint FitsInt f 0 0 :=
  pidStepExact ⟨by decide +kernel, by decide +kernel, by decide +kernel⟩ (by decide +kernel) (by decide +kernel)
    (by decide +kernel) (by decide +kernel) (by decide +kernel) 0
    ⟨Or.inr (by decide +kernel), Or.inr (Or.inr (by decide +kernel)), Or.inl (by decide +kernel), by decide +kernel⟩

/- With a proportional gain of 32767 and an error of 100 the motor is driven backwards at full power. -/
def stiffJoint : State Rat := commanded (started (tuned 5 32767 (tuned 19 100 (powerOn bench fun _ => 0xFF)))) 0 ⟨jointPid, 100⟩

theorem stiffJointReverses : JointBound stiffJoint 0 ∧ jointMode stiffJoint 0 = jointPid ∧
    pidParams stiffJoint 0 = ⟨32767, 32, 0, 255, 0, 255, 100, 100⟩ ∧ (stiffJoint.jointControllers 0).errorIntegral = 0 ∧
      (stiffJoint.jointControllers 0).previousError = 0 ∧ AtJoint exactOutput stiffJoint 0 0 = 255 ∧
        ((jointControllerHandle 0 0 stiffJoint).jointControllers 0).output = -255 := by
  refine ⟨⟨?_, ?_, ?_⟩, ?_, ?_, ?_, ?_, ?_, ?_⟩ <;> decide +kernel

/- A disabled joint of the bench starts its next PID steps alike, whatever it did before. -/
theorem benchForgets :
    outputs 0 (([⟨⟨jointPid, 50⟩, 3⟩, ⟨⟨jointPwm, 9⟩, 8⟩] ++ [⟨⟨jointDisabled, 0⟩, 20⟩] : List Sample).foldl (sampled 0)
        bootedJoints) [⟨⟨jointPid, 7⟩, 22⟩] =
      outputs 0 (([] ++ [⟨⟨jointDisabled, 1⟩, 20⟩] : List Sample).foldl (sampled 0) bootedJoints) [⟨⟨jointPid, 7⟩, 22⟩] :=
  @disablingForgets _ bootedJoints bootedJoints 0 bootedBound bootedBound rfl [⟨⟨jointPid, 50⟩, 3⟩, ⟨⟨jointPwm, 9⟩, 8⟩] []
    ⟨⟨jointDisabled, 0⟩, 20⟩ ⟨⟨jointDisabled, 1⟩, 20⟩ rfl rfl rfl [⟨⟨jointPid, 7⟩, 22⟩]
    (Or.inr fun remembered => absurd remembered.1 (by decide +kernel))

theorem benchLimited : AfterEach (fun past => Limited (pidParams bootedJoints 0) (outputAfter 0 bootedJoints past))
      [⟨⟨jointPid, 50⟩, 3⟩, ⟨⟨jointPwm, 255⟩, 8⟩, ⟨⟨9, 0⟩, 8⟩] ↔
    ∀ sample ∈ [⟨⟨jointPid, 50⟩, 3⟩, ⟨⟨jointPwm, 255⟩, 8⟩, ⟨⟨9, 0⟩, 8⟩], PwmLimited (pidParams bootedJoints 0) sample :=
  outputsLimited (by decide +kernel) (by decide +kernel) _

/- A PWM record of 300 is output as it is. -/
theorem pwmNotLimited : bootedJoints.jointControllers 0 = jointControllerInit 0 .zeroed ∧
    pidParams bootedJoints 0 = ⟨255, 32, 0, 255, 0, 255, 100, 10⟩ ∧
      ¬ AfterEach (fun past => Limited (pidParams bootedJoints 0) (outputAfter 0 bootedJoints past))
        [⟨⟨jointPwm, 300⟩, 0⟩] := by
  refine ⟨by decide +kernel, by decide +kernel, fun limited => ?_⟩
  exact absurd (limited [] _ (List.prefix_refl _)).1 (by decide +kernel)

/- With a derivative gain the error from before the joint was disabled comes back as an output. -/
def dampedJoint : State Rat := started (tuned 9 320 (powerOn bench fun _ => 0xFF))

theorem disabledRemembers : JointBound dampedJoint 0 ∧
    outputs 0 (([⟨⟨jointPid, 100⟩, 0⟩] ++ [⟨⟨jointDisabled, 0⟩, 0⟩] : List Sample).foldl (sampled 0) dampedJoint)
        [⟨⟨jointPid, 0⟩, 0⟩] = [-100] ∧
      outputs 0 (([] ++ [⟨⟨jointDisabled, 0⟩, 0⟩] : List Sample).foldl (sampled 0) dampedJoint) [⟨⟨jointPid, 0⟩, 0⟩] = [0] := by
  refine ⟨⟨?_, ?_, ?_⟩, ?_, ?_⟩ <;> decide +kernel

end OrazioLogger.Firmware
