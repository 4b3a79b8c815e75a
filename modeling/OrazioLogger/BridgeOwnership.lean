import OrazioLogger.BridgeOutcome
import OrazioLogger.HBridges

/-! Which pins a bridge has configured, and which it writes after an initialisation that failed. -/
namespace OrazioLogger.Firmware

variable {F : Type}

inductive Role where
  | pwm | digital
  deriving DecidableEq, Repr

/- The pin that a call is about, in its role. -/
def DriverCall.target : DriverCall → Role × UInt8
  | .setDirection pin _ => (.digital, pin)
  | .setValue pin _ => (.digital, pin)
  | .pwmEnable pin _ => (.pwm, pin)
  | .setDutyCycle pin _ => (.pwm, pin)

/- A pin is configured as an output or as a PWM, and released again. -/
def configureStep (target : Role × UInt8) (on : Bool) : DriverCall → Bool
  | .setDirection pin output => if target = (.digital, pin) then output else on
  | .pwmEnable pin enable => if target = (.pwm, pin) then enable else on
  | _ => on

def configuredBy (own : Role × UInt8 → Bool) (calls : List DriverCall) (target : Role × UInt8) : Bool :=
  calls.foldl (configureStep target) (own target)

/- The calls of a step. -/
def newCalls (f later : State F) : List DriverCall := later.driverCalls.drop f.driverCalls.length

/- Bridge `i` since the power came on, with the pins that it has configured itself; whatever else changes. -/
inductive BridgeRun (b : Board F) (i : Nat) : State F → (Role × UInt8 → Bool) → Prop where
  | start {f : State F} (zeroed : f.bridges i = ⟨none, 0, 0, 0⟩) : BridgeRun b i f fun _ => false
  | init {f : State F} {own : Role × UInt8 → Bool} (type : UInt8) (before : BridgeRun b i f own) :
      BridgeRun b i (hBridgeInit b i type f).2 (configuredBy own (newCalls f (hBridgeInit b i type f).2))
  | setSpeed {f : State F} {own : Role × UInt8 → Bool} (speed : Int) (before : BridgeRun b i f own) :
      BridgeRun b i (hBridgeSetSpeed b i speed f).2 (configuredBy own (newCalls f (hBridgeSetSpeed b i speed f).2))
  | others {f later : State F} {own : Role × UInt8 → Bool} (same : later.bridges i = f.bridges i)
      (before : BridgeRun b i f own) : BridgeRun b i later own

/- Until the next initialisation, only configured pins are written. -/
def DrivesOwnPins (b : Board F) (i : Nat) (own : Role × UInt8 → Bool) (f : State F) : Prop :=
  ∀ later : State F, later.bridges i = f.bridges i → ∀ speed,
    ∀ call ∈ newCalls later (hBridgeSetSpeed b i speed later).2, own call.target = true

/- The pins that every speed is written to. -/
def drivenPins (b : Board F) (bridge : HBridge) : List (Role × UInt8) :=
  match bridge.ops with
  | none => []
  | some .pwmDir => granted (b.digioPin bridge.pin1) [(.digital, bridge.pin1)] ++
      granted (b.pwmPin bridge.pin0) [(.pwm, bridge.pin0)]
  | some .dualPwm => granted (b.pwmPin bridge.pin0) [(.pwm, bridge.pin0)] ++
      granted (b.pwmPin bridge.pin1) [(.pwm, bridge.pin1)]
  | some .halfCyclePwm => granted (b.pwmPin bridge.pin0) [(.pwm, bridge.pin0)]

/- The pins of the record, as its type uses them. -/
def recordedPins (b : Board F) (bridge : HBridge) : List (Role × UInt8) :=
  match bridge.ops with
  | none => []
  | some .pwmDir => granted (b.pwmPin bridge.pin0) [(.pwm, bridge.pin0)] ++
      granted (b.digioPin bridge.pin1) [(.digital, bridge.pin1)] ++
      granted (decide (0 ≤ signed8 bridge.pin2) && b.digioPin bridge.pin2) [(.digital, bridge.pin2)]
  | some .dualPwm => granted (b.pwmPin bridge.pin0) [(.pwm, bridge.pin0)] ++
      granted (b.pwmPin bridge.pin1) [(.pwm, bridge.pin1)]
  | some .halfCyclePwm => granted (b.pwmPin bridge.pin0) [(.pwm, bridge.pin0)] ++
      granted (b.digioPin bridge.pin1) [(.digital, bridge.pin1)]

/- When a failed initialisation leaves nothing to drive but configured pins, with the record from before it. -/
def FailsIdle (b : Board F) (own : Role × UInt8 → Bool) (old : HBridge) (type pin0 pin1 : UInt8) : Prop :=
  if type = 0 then b.pwmPin old.pin0 = false ∧ (b.digioPin pin1 = true ∨ b.digioPin old.pin1 = false)
  else if type = 1 then b.pwmPin old.pin0 = false ∧ b.pwmPin old.pin1 = false
  else if type = 2 then b.pwmPin pin0 = true ∨ b.pwmPin old.pin0 = false
  else ∀ target ∈ drivenPins b old, own target = true

section Ownership
variable {b : Board F} {i : Nat} {f : State F} {own : Role × UInt8 → Bool} {bridge : HBridge} {calls more : List DriverCall}
  {target : Role × UInt8}

theorem newCallsCalled {later : State F} (called : later.driverCalls = f.driverCalls ++ calls) : newCalls f later = calls := by
  rw [newCalls, called, List.drop_left]

theorem configuredAppend : configuredBy own (calls ++ more) = configuredBy (configuredBy own calls) more := by
  funext target
  exact List.foldl_append

theorem initCalls (b : Board F) (i : Nat) (type : UInt8) (f : State F) : newCalls f (hBridgeInit b i type f).2 =
    (bridgeOutcome b (f.bridges i) (pin f i 0) (pin f i 1) (pin f i 2) type).calls := by
  rw [hBridgeInitOutcome]
  exact newCallsCalled (appliedCalls _ i f)

theorem setSpeedCalls (b : Board F) (i : Nat) (speed : Int) (f : State F) :
    newCalls f (hBridgeSetSpeed b i speed f).2 = speedCalls b (f.bridges i) speed := by
  rw [hBridgeSetSpeedCalls]
  exact newCallsCalled rfl

theorem speedTargets (b : Board F) (bridge : HBridge) (speed : Int) :
    (speedCalls b bridge speed).map DriverCall.target = drivenPins b bridge := by
  have mapped : ∀ accepted calls, (granted accepted calls).map DriverCall.target =
      granted accepted (calls.map DriverCall.target) := by
    intro accepted calls
    cases accepted <;> rfl
  unfold speedCalls drivenPins
  cases bridge.ops with
  | none => rfl
  | some type => cases type <;> simp only [List.map_append, mapped, List.map_cons, List.map_nil, DriverCall.target]

theorem drivesOwnPins : DrivesOwnPins b i own f ↔ ∀ target ∈ drivenPins b (f.bridges i), own target = true := by
  constructor
  · intro drives target driven
    rw [← speedTargets b _ 0] at driven
    obtain ⟨call, made, rfl⟩ := List.mem_map.mp driven
    exact drives f rfl 0 call (by rwa [setSpeedCalls])
  · intro all later same speed call made
    rw [setSpeedCalls, same] at made
    refine all _ ?_
    rw [← speedTargets b _ speed]
    exact List.mem_map_of_mem made

/- A speed configures nothing. -/
theorem speedConfigures (b : Board F) (bridge : HBridge) (speed : Int) : configuredBy own (speedCalls b bridge speed) = own := by
  have idle : ∀ accepted pin value, configuredBy own (granted accepted [.setValue pin value]) = own := by
    intro accepted pin value
    cases accepted <;> rfl
  have idle' : ∀ (own : Role × UInt8 → Bool) accepted pin duty,
      configuredBy own (granted accepted [.setDutyCycle pin duty]) = own := by
    intro own accepted pin duty
    cases accepted <;> rfl
  unfold speedCalls
  dsimp only
  split
  · rfl
  · rw [configuredAppend, idle, idle']
  · rw [configuredAppend, idle', idle']
  · rw [idle']

/- What a bridge has configured stands in its record. -/
def Recorded (b : Board F) (own : Role × UInt8 → Bool) (bridge : HBridge) : Prop :=
  ∀ target, own target = true → target ∈ recordedPins b bridge

@[simp] theorem memGranted {α : Type} {x : α} {accepted : Bool} {xs : List α} :
    x ∈ granted accepted xs ↔ accepted = true ∧ x ∈ xs := by
  cases accepted <;> simp

theorem forallGranted {α : Type} {p : α → Prop} {accepted : Bool} {xs : List α} :
    (∀ x ∈ granted accepted xs, p x) ↔ (accepted = true → ∀ x ∈ xs, p x) := by
  cases accepted <;> simp

theorem configuredGranted (accepted : Bool) : configuredBy own (granted accepted calls) target =
    if accepted then configuredBy own calls target else own target := by
  cases accepted <;> rfl

theorem configuredWhenUsed (pin : UInt8) : configuredBy own (whenUsed pin calls) target =
    if 0 ≤ signed8 pin then configuredBy own calls target else own target := by
  unfold whenUsed
  split <;> rfl

theorem configuredNone : configuredBy own [] target = own target := rfl

theorem configuredCons (call : DriverCall) : configuredBy own (call :: calls) target =
    configuredBy (fun target => configureStep target (own target) call) calls target := rfl

/- So that all of it is released first. -/
theorem Recorded.released (recorded : Recorded b own bridge) : configuredBy own (finiCalls b bridge) = fun _ => false := by
  funext target
  have kept := recorded target
  unfold recordedPins at kept
  unfold finiCalls
  cases ops : bridge.ops with
  | none =>
    rw [ops] at kept
    exact Bool.eq_false_iff.mpr fun configured => nomatch kept configured
  | some type =>
    rw [ops] at kept
    cases type <;>
      simp only [configuredAppend, configuredGranted, configuredWhenUsed, configuredCons, configuredNone, configureStep,
        List.mem_append, memGranted, List.mem_singleton, Bool.and_eq_true, decide_eq_true_eq] at kept ⊢ <;>
      grind

theorem Recorded.afresh (recorded : Recorded b own bridge) :
    configuredBy own (finiCalls b bridge ++ calls) = configuredBy (fun _ => false) calls := by
  rw [configuredAppend, recorded.released]

/- The record that an initialisation leaves, whether it fails or not. -/
theorem Recorded.init (recorded : Recorded b own bridge) (pin0 pin1 pin2 type : UInt8) :
    let o := bridgeOutcome b bridge pin0 pin1 pin2 type
    Recorded b (configuredBy own o.calls) o.bridge := by
  have released : configuredBy own (finiCalls b bridge) = _ := recorded.released
  unfold bridgeOutcome pwmDirOutcome dualPwmOutcome halfPwmOutcome
  simp only [List.append_assoc]
  split_ifs
  -- nothing is released where the type is unknown
  any_goals exact recorded
  all_goals
    intro target configured
    simp only [recorded.afresh, released, configuredAppend, configuredGranted, configuredWhenUsed, configuredCons,
      configuredNone, configureStep] at configured
    simp only [recordedPins, List.mem_append, memGranted, List.mem_singleton, Bool.and_eq_true, decide_eq_true_eq]
    grind

theorem BridgeRun.recorded (run : BridgeRun b i f own) : Recorded b own (f.bridges i) := by
  induction run with
  | start => exact fun _ configured => nomatch configured
  | init type before ih =>
    rw [initCalls, hBridgeInitOutcome, appliedBridge]
    exact ih.init _ _ _ type
  | setSpeed speed before ih =>
    rw [setSpeedCalls, speedConfigures, hBridgeSetSpeedCalls]
    exact ih
  | others same before ih =>
    rw [same]
    exact ih

/- Nothing is configured after a failed initialisation but what it claimed itself. -/
theorem Recorded.failed (recorded : Recorded b own bridge) (pin0 pin1 pin2 type : UInt8)
    (failed : (bridgeOutcome b bridge pin0 pin1 pin2 type).status.code < 0) :
    let o := bridgeOutcome b bridge pin0 pin1 pin2 type
    (∀ target ∈ drivenPins b o.bridge, configuredBy own o.calls target = true) ↔ FailsIdle b own bridge type pin0 pin1 := by
  have released : configuredBy own (finiCalls b bridge) = _ := recorded.released
  have succeeded : ¬ PacketStatus.success.code < 0 := by decide
  revert failed
  unfold bridgeOutcome pwmDirOutcome dualPwmOutcome halfPwmOutcome FailsIdle
  simp only [List.append_assoc]
  split_ifs
  any_goals exact fun _ => Iff.rfl
  all_goals first
    | exact fun failed => absurd failed succeeded
    | intro
      simp only [recorded.afresh, released, configuredAppend, configuredGranted, configuredWhenUsed, configuredCons,
        configuredNone, configureStep, drivenPins, List.forall_mem_append, forallGranted, List.forall_mem_singleton]
      grind

theorem failedBridgeDrives (b : Board F) (i : Nat) (type : UInt8) (f : State F) (own : Role × UInt8 → Bool)
    (run : BridgeRun b i f own) (failed : (hBridgeInit b i type f).1.code < 0) :
    let later := (hBridgeInit b i type f).2
    DrivesOwnPins b i (configuredBy own (newCalls f later)) later ↔
      FailsIdle b own (f.bridges i) type (pin f i 0) (pin f i 1) := by
  dsimp only
  rw [drivesOwnPins, initCalls, hBridgeInitOutcome, appliedBridge]
  rw [hBridgeInitOutcome] at failed
  exact run.recorded.failed _ _ _ type failed

end Ownership

/- A half cycle bridge whose PWM pin is taken and whose enable pin is not. -/
def enableRefused : State Rat := setPin (powerOn atmega2560 fun _ => 0xFF) 0 1 100

theorem enableRefusedIdle :
    let later := (hBridgeInit atmega2560 0 2 enableRefused).2
    DrivesOwnPins atmega2560 0 (configuredBy (fun _ => false) (newCalls enableRefused later)) later ↔
      FailsIdle atmega2560 (fun _ => false) (enableRefused.bridges 0) 2 (pin enableRefused 0 0) (pin enableRefused 0 1) :=
  failedBridgeDrives atmega2560 0 2 enableRefused (fun _ => false) (.start rfl) (by decide +kernel)

/- A dual bridge on pins 2 and 3 that is to become a PWM and a direction, which is refused: it goes on as such with the
old pins, although they were released. -/
def dualRunning : State Rat := (hBridgeInit atmega2560 0 1 (powerOn atmega2560 fun _ => 0xFF)).2
def directionRefused : State Rat := setPin dualRunning 0 1 100

theorem refusedBridgeDrives :
    let own := configuredBy (fun _ => false) (newCalls (powerOn atmega2560 fun _ => 0xFF) dualRunning)
    let later := (hBridgeInit atmega2560 0 0 directionRefused).2
    BridgeRun atmega2560 0 directionRefused own ∧ (hBridgeInit atmega2560 0 0 directionRefused).1 = .wrongPins ∧
      newCalls later (hBridgeSetSpeed atmega2560 0 200 later).2 = [.setValue 3 0, .setDutyCycle 2 200] ∧
      configuredBy own (newCalls directionRefused later) (.pwm, 2) = false ∧
      ¬ DrivesOwnPins atmega2560 0 (configuredBy own (newCalls directionRefused later)) later := by
  dsimp only
  have writes : newCalls (hBridgeInit atmega2560 0 0 directionRefused).2
      (hBridgeSetSpeed atmega2560 0 200 (hBridgeInit atmega2560 0 0 directionRefused).2).2 =
        [.setValue 3 0, .setDutyCycle 2 200] := by decide +kernel
  refine ⟨.others (f := dualRunning) rfl (.init 1 (.start rfl)), by decide +kernel, writes, by decide +kernel, fun drives => ?_⟩
  have own := drives _ rfl 200 (.setDutyCycle 2 200) (by rw [writes]; decide)
  revert own
  decide +kernel

end OrazioLogger.Firmware
