import OrazioLogger.Joints

/-! What `HBridge_init` comes to, as a function of the bridge's record and of the three pins. -/
namespace OrazioLogger.Firmware

variable {F : Type}

/-! The calls that the drivers take. -/

def State.called (f : State F) (calls : List DriverCall) : State F := { f with driverCalls := f.driverCalls ++ calls }

def granted {α : Type} (accepted : Bool) (calls : List α) : List α := if accepted then calls else []

def whenUsed (pin : UInt8) (calls : List DriverCall) : List DriverCall := if 0 ≤ signed8 pin then calls else []

/- A driver that is asked for a pin answers and records in the same way in every state. -/
def Responds (ask : State F → Bool × State F) (accepted : Bool) (calls : List DriverCall) : Prop :=
  ∀ f, ask f = (accepted, f.called calls)

def optionalPin (b : Board F) (pin : UInt8) : Bool := decide (signed8 pin < 0) || b.digioPin pin

section Drivers
variable {b : Board F} {f : State F}

@[simp] theorem calledNone (f : State F) : f.called [] = f := by rw [State.called, List.append_nil]

@[simp] theorem calledTwice (calls more : List DriverCall) : (f.called calls).called more = f.called (calls ++ more) := by
  rw [State.called, State.called, List.append_assoc, State.called]

theorem digioSetDirectionAnswers (b : Board F) (pin : UInt8) (output : Bool) :
    Responds (digioSetDirection b pin output) (b.digioPin pin) (granted (b.digioPin pin) [.setDirection pin output]) := by
  intro f
  unfold digioSetDirection granted
  cases b.digioPin pin <;> simp [State.called]

theorem digioSetValueAnswers (b : Board F) (pin value : UInt8) :
    Responds (digioSetValue b pin value) (b.digioPin pin) (granted (b.digioPin pin) [.setValue pin value]) := by
  intro f
  unfold digioSetValue granted
  cases b.digioPin pin <;> simp [State.called]

theorem pwmEnableAnswers (b : Board F) (pin : UInt8) (enable : Bool) :
    Responds (pwmEnable b pin enable) (b.pwmPin pin) (granted (b.pwmPin pin) [.pwmEnable pin enable]) := by
  intro f
  unfold pwmEnable granted
  cases b.pwmPin pin <;> simp [State.called]

theorem pwmSetDutyCycleAnswers (b : Board F) (pin duty : UInt8) :
    Responds (pwmSetDutyCycle b pin duty) (b.pwmPin pin) (granted (b.pwmPin pin) [.setDutyCycle pin duty]) := by
  intro f
  unfold pwmSetDutyCycle granted
  cases b.pwmPin pin <;> simp [State.called]

/- Both calls on a pin are answered alike. -/
theorem bothAnswers {first second : State F → Bool × State F} {accepted : Bool} {calls more : List DriverCall}
    (one : Responds first accepted (granted accepted calls)) (two : Responds second accepted (granted accepted more)) :
    Responds (both first second) accepted (granted accepted (calls ++ more)) := by
  intro f
  unfold both
  rw [one]
  dsimp only
  cases accepted with
  | false => rfl
  | true =>
    rw [if_pos rfl, two, calledTwice]
    rfl

theorem digioOutputAnswers (b : Board F) (value pin : UInt8) : Responds (digioOutput b value pin) (b.digioPin pin)
    (granted (b.digioPin pin) [.setDirection pin true, .setValue pin value]) :=
  bothAnswers (digioSetDirectionAnswers b pin true) (digioSetValueAnswers b pin value)

theorem pwmOutputAnswers (b : Board F) (pin : UInt8) : Responds (pwmOutput b pin) (b.pwmPin pin)
    (granted (b.pwmPin pin) [.pwmEnable pin true, .setDutyCycle pin 0]) :=
  bothAnswers (pwmEnableAnswers b pin true) (pwmSetDutyCycleAnswers b pin 0)

theorem pwmStoppedAnswers (b : Board F) (pin : UInt8) :
    Responds (both (pwmSetDutyCycle b pin 0) (pwmEnable b pin true)) (b.pwmPin pin)
      (granted (b.pwmPin pin) [.setDutyCycle pin 0, .pwmEnable pin true]) :=
  bothAnswers (pwmSetDutyCycleAnswers b pin 0) (pwmEnableAnswers b pin true)

theorem optionalOutputAnswers (b : Board F) (value pin : UInt8) : Responds (optionalOutput b value pin) (optionalPin b pin)
    (whenUsed pin (granted (b.digioPin pin) [.setDirection pin true, .setValue pin value])) := by
  intro f
  unfold optionalOutput optionalPin whenUsed
  by_cases used : 0 ≤ signed8 pin
  · rw [if_pos used, if_pos used, digioOutputAnswers, decide_eq_false (not_lt.mpr used), Bool.false_or]
  · rw [if_neg used, if_neg used, decide_eq_true (not_le.mp used), Bool.true_or, calledNone]

theorem brakeOutputAnswers (b : Board F) (pin : UInt8) : Responds (brakeOutput b pin) (optionalPin b pin)
    (whenUsed pin (granted (b.digioPin pin) [.setDirection pin true, .setValue pin 0, .setValue pin 0])) := by
  intro f
  unfold brakeOutput
  rw [optionalOutputAnswers]
  dsimp only
  unfold whenUsed optionalPin
  by_cases used : 0 ≤ signed8 pin
  · rw [decide_eq_false (not_lt.mpr used), Bool.false_or]
    cases accepted : b.digioPin pin with
    | false => simp [used, granted]
    | true => simp [used, granted, digioSetValueAnswers b pin 0 _, accepted]
  · simp [used]

/- What a bridge's pins are released with. -/
def finiCalls (b : Board F) (bridge : HBridge) : List DriverCall :=
  match bridge.ops with
  | none => []
  | some .pwmDir =>
    granted (b.pwmPin bridge.pin0) [.setDutyCycle bridge.pin0 0, .pwmEnable bridge.pin0 false] ++
      granted (b.digioPin bridge.pin1) [.setValue bridge.pin1 0, .setDirection bridge.pin1 false] ++
      whenUsed bridge.pin2 (granted (b.digioPin bridge.pin2) [.setValue bridge.pin2 0, .setDirection bridge.pin2 false])
  | some .dualPwm =>
    granted (b.pwmPin bridge.pin0) [.setDutyCycle bridge.pin0 0, .pwmEnable bridge.pin0 false] ++
      granted (b.pwmPin bridge.pin1) [.setDutyCycle bridge.pin1 0, .pwmEnable bridge.pin1 false]
  | some .halfCyclePwm =>
    granted (b.pwmPin bridge.pin0) [.setDutyCycle bridge.pin0 0] ++ granted (b.digioPin bridge.pin1) [.setValue bridge.pin1 0] ++
      granted (b.pwmPin bridge.pin0) [.pwmEnable bridge.pin0 false] ++
      granted (b.digioPin bridge.pin1) [.setDirection bridge.pin1 false]

@[simp] theorem refusedNone {α : Type} (calls : List α) : granted false calls = [] := rfl

@[simp] theorem grantedAll {α : Type} (calls : List α) : granted true calls = calls := rfl

theorem grantedTwice (accepted : Bool) (calls more : List DriverCall) :
    granted accepted calls ++ granted accepted more = granted accepted (calls ++ more) := by
  cases accepted <;> rfl

theorem pwmReleased (b : Board F) (pin : UInt8) (f : State F) : (pwmEnable b pin false (pwmSetDutyCycle b pin 0 f).2).2 =
    f.called (granted (b.pwmPin pin) [.setDutyCycle pin 0, .pwmEnable pin false]) := by
  rw [pwmEnableAnswers, pwmSetDutyCycleAnswers, calledTwice, grantedTwice, List.singleton_append]

theorem digioReleased (b : Board F) (pin : UInt8) (f : State F) :
    (digioSetDirection b pin false (digioSetValue b pin 0 f).2).2 =
      f.called (granted (b.digioPin pin) [.setValue pin 0, .setDirection pin false]) := by
  rw [digioSetDirectionAnswers, digioSetValueAnswers, calledTwice, grantedTwice, List.singleton_append]

theorem hBridgeFiniCalls (b : Board F) (i : Nat) (f : State F) :
    hBridgeFini b i f = f.called (finiCalls b (f.bridges i)) := by
  unfold hBridgeFini finiCalls
  cases (f.bridges i).ops with
  | none => exact (calledNone f).symm
  | some type =>
    cases type with
    | pwmDir =>
      simp only [hBridgePwmDirFini, pwmReleased, digioReleased, calledTwice, whenUsed]
      split
      · rfl
      · rw [List.append_nil]
    | dualPwm => simp only [hBridgeDualPwmFini, pwmReleased, calledTwice]
    | halfCyclePwm =>
      unfold hBridgeHalfPwmFini
      dsimp only
      rw [digioSetDirectionAnswers, pwmEnableAnswers, digioSetValueAnswers, pwmSetDutyCycleAnswers]
      simp only [calledTwice]

/- What a speed is written with. -/
def speedCalls (b : Board F) (bridge : HBridge) (speed : Int) : List DriverCall :=
  let limited := if 255 < speed then 255 else speed
  let limited := if limited < -255 then -255 else limited
  match bridge.ops with
  | none => []
  | some .pwmDir =>
    let pwm : Int := if 0 ≤ speed then speed else (-speed) % 65536
    granted (b.digioPin bridge.pin1) [.setValue bridge.pin1 (if 0 ≤ speed then 0 else 1)] ++
      granted (b.pwmPin bridge.pin0) [.setDutyCycle bridge.pin0 (UInt8.ofNat (if 255 < pwm then 255 else pwm).toNat)]
  | some .dualPwm =>
    granted (b.pwmPin bridge.pin0) [.setDutyCycle bridge.pin0 (UInt8.ofNat limited.toNat)] ++
      granted (b.pwmPin bridge.pin1) [.setDutyCycle bridge.pin1 (UInt8.ofNat (-limited).toNat)]
  | some .halfCyclePwm =>
    granted (b.pwmPin bridge.pin0) [.setDutyCycle bridge.pin0 (UInt8.ofNat (127 + limited.tdiv 2).toNat)]

theorem hBridgeSetSpeedCalls (b : Board F) (i : Nat) (speed : Int) (f : State F) :
    (hBridgeSetSpeed b i speed f).2 = f.called (speedCalls b (f.bridges i) speed) := by
  unfold hBridgeSetSpeed speedCalls
  cases (f.bridges i).ops with
  | none => exact (calledNone f).symm
  | some type =>
    cases type with
    | pwmDir =>
      unfold hBridgePwmDirSetSpeed
      dsimp only
      rw [pwmSetDutyCycleAnswers, digioSetValueAnswers, calledTwice]
    | dualPwm =>
      unfold hBridgeDualPwmSetSpeed
      dsimp only
      generalize (if (if 255 < speed then 255 else speed) < -255 then -255 else if 255 < speed then 255 else speed) = limited
      split
      · rename_i forwards
        have still : (-limited).toNat = 0 := Int.toNat_of_nonpos (Int.neg_nonpos_of_nonneg forwards)
        rw [pwmSetDutyCycleAnswers, pwmSetDutyCycleAnswers, calledTwice, still]
        rfl
      · rename_i backwards
        have still : limited.toNat = 0 := Int.toNat_of_nonpos (Int.le_of_lt (Int.not_le.mp backwards))
        rw [pwmSetDutyCycleAnswers, pwmSetDutyCycleAnswers, calledTwice, still]
        rfl
    | halfCyclePwm =>
      unfold hBridgeHalfPwmSetSpeed
      dsimp only
      rw [pwmSetDutyCycleAnswers]

end Drivers

/-! The outcome. -/

def HBridge.pin (bridge : HBridge) : Nat → UInt8
  | 0 => bridge.pin0
  | 1 => bridge.pin1
  | _ => bridge.pin2

/- `refused` is the pin that is set back in the parameters. -/
structure BridgeOutcome where
  status : PacketStatus
  bridge : HBridge
  refused : Option Nat
  calls : List DriverCall
  deriving DecidableEq, Repr

/- In the middle of an initialisation, `calls` have been made and `bridge` is the record so far. -/
def amid (f : State F) (i : Nat) (calls : List DriverCall) (bridge : HBridge) : State F := setBridge (f.called calls) i bridge

def BridgeOutcome.applied (o : BridgeOutcome) (i : Nat) (f : State F) : State F :=
  let g := amid f i o.calls o.bridge
  match o.refused with
  | none => g
  | some k => setPin g i k ((f.bridges i).pin k)

section Outcome
variable (b : Board F) (old : HBridge) (pin0 pin1 pin2 : UInt8)

def pwmDirOutcome : BridgeOutcome :=
  let released := finiCalls b old
  let direction := released ++ granted (b.digioPin pin1) [.setDirection pin1 true, .setValue pin1 0]
  let brake := direction ++
    whenUsed pin2 (granted (b.digioPin pin2) [.setDirection pin2 true, .setValue pin2 0, .setValue pin2 0])
  if b.digioPin pin1 then
    if optionalPin b pin2 then
      if b.pwmPin pin0 then
        ⟨.success, ⟨some .pwmDir, pin0, pin1, pin2⟩, none, brake ++ [.pwmEnable pin0 true, .setDutyCycle pin0 0]⟩
      else ⟨.wrongPins, ⟨some .pwmDir, old.pin0, pin1, pin2⟩, some 0, brake⟩
    else ⟨.wrongPins, ⟨some .pwmDir, old.pin0, pin1, old.pin2⟩, some 2, direction⟩
  else ⟨.wrongPins, ⟨some .pwmDir, old.pin0, old.pin1, old.pin2⟩, some 1, released⟩

def dualPwmOutcome : BridgeOutcome :=
  let released := finiCalls b old
  let forward := released ++ granted (b.pwmPin pin0) [.pwmEnable pin0 true, .setDutyCycle pin0 0]
  if b.pwmPin pin0 then
    if b.pwmPin pin1 then
      ⟨.success, ⟨some .dualPwm, pin0, pin1, old.pin2⟩, none, forward ++ [.pwmEnable pin1 true, .setDutyCycle pin1 0]⟩
    else ⟨.success, ⟨some .dualPwm, pin0, old.pin1, old.pin2⟩, some 1, forward⟩
  else ⟨.wrongPins, ⟨some .dualPwm, old.pin0, old.pin1, old.pin2⟩, some 0, released⟩

def halfPwmOutcome : BridgeOutcome :=
  let released := finiCalls b old
  let stopped := released ++ granted (b.pwmPin pin0) [.setDutyCycle pin0 0, .pwmEnable pin0 true]
  if b.pwmPin pin0 then
    if optionalPin b pin1 then
      ⟨.success, ⟨some .halfCyclePwm, pin0, pin1, old.pin2⟩, none,
        stopped ++ whenUsed pin1 (granted (b.digioPin pin1) [.setDirection pin1 true, .setValue pin1 1])⟩
    else ⟨.wrongPins, ⟨some .halfCyclePwm, pin0, old.pin1, old.pin2⟩, some 1, stopped⟩
  else ⟨.wrongPins, ⟨some .halfCyclePwm, old.pin0, old.pin1, old.pin2⟩, some 0, released⟩

def bridgeOutcome (type : UInt8) : BridgeOutcome :=
  if type = 0 then pwmDirOutcome b old pin0 pin1 pin2
  else if type = 1 then dualPwmOutcome b old pin0 pin1
  else if type = 2 then halfPwmOutcome b old pin0 pin1
  else ⟨.unknownType, old, none, []⟩

/- Whether a bridge of the type takes its three pins. -/
def bridgeAccepted (b : Board F) (type pin0 pin1 pin2 : UInt8) : Bool :=
  if type = 0 then b.digioPin pin1 && optionalPin b pin2 && b.pwmPin pin0
  else if type = 1 then b.pwmPin pin0
  else if type = 2 then b.pwmPin pin0 && optionalPin b pin1
  else false

/- The first pin that is refused, in the order in which the type asks for them. -/
def firstRefused (type : UInt8) : Option Nat :=
  if type = 0 then
    if b.digioPin pin1 then if optionalPin b pin2 then if b.pwmPin pin0 then none else some 0 else some 2 else some 1
  else if type = 1 then if b.pwmPin pin0 then if b.pwmPin pin1 then none else some 1 else some 0
  else if type = 2 then if b.pwmPin pin0 then if optionalPin b pin1 then none else some 1 else some 0
  else none

theorem refusedSmall {b : Board F} {pin0 pin1 pin2 type : UInt8} {k : Nat}
    (refused : firstRefused b pin0 pin1 pin2 type = some k) : k < 3 := by
  unfold firstRefused at refused
  split_ifs at refused <;> cases refused <;> decide

/- It does not depend on the record, and the record keeps the pin that it had. -/
theorem outcomeRefused (type : UInt8) :
    let o := bridgeOutcome b old pin0 pin1 pin2 type
    o.refused = firstRefused b pin0 pin1 pin2 type ∧ ∀ k ∈ o.refused, o.bridge.pin k = old.pin k := by
  unfold bridgeOutcome pwmDirOutcome dualPwmOutcome halfPwmOutcome firstRefused
  split_ifs <;> refine ⟨rfl, ?_⟩ <;> rintro k ⟨⟩ <;> rfl

theorem outcomeStatus (type : UInt8) :
    let status := (bridgeOutcome b old pin0 pin1 pin2 type).status
    if bridgeAccepted b type pin0 pin1 pin2 then status = .success else status = .wrongPins ∨ status = .unknownType := by
  unfold bridgeOutcome bridgeAccepted pwmDirOutcome dualPwmOutcome halfPwmOutcome
  split_ifs <;> simp_all

end Outcome

section Init
variable {b : Board F} {i k : Nat} {f : State F}

theorem amidCalled (calls more : List DriverCall) (bridge : HBridge) :
    (amid f i calls bridge).called more = amid f i (calls ++ more) bridge := by
  unfold amid
  rw [← calledTwice]
  rfl

theorem amidKept (calls : List DriverCall) (bridge later : HBridge) :
    setBridge (amid f i calls bridge) i later = amid f i calls later := by
  unfold amid setBridge
  rw [Function.update_idem]

theorem amidBridge (calls : List DriverCall) (bridge : HBridge) : (amid f i calls bridge).bridges i = bridge :=
  Function.update_self ..

theorem amidPin (calls : List DriverCall) (bridge : HBridge) : pin (amid f i calls bridge) i k = pin f i k := rfl

theorem appliedCalls (o : BridgeOutcome) (i : Nat) (f : State F) :
    (o.applied i f).driverCalls = f.driverCalls ++ o.calls := by
  unfold BridgeOutcome.applied
  dsimp only
  split <;> rfl

theorem appliedBridge (o : BridgeOutcome) (i : Nat) (f : State F) : (o.applied i f).bridges i = o.bridge := by
  unfold BridgeOutcome.applied
  dsimp only
  split
  · exact amidBridge _ _
  · exact amidBridge o.calls o.bridge

section Claim
variable {ask : UInt8 → State F → Bool × State F} {old : HBridge → UInt8} {keep : UInt8 → HBridge → HBridge}
  {rest : State F → PacketStatus × State F} {calls : List DriverCall}

theorem claimPinGranted (answers : Responds (ask (pin f i k)) true calls) (before : List DriverCall) (bridge : HBridge) :
    claimPin i k ask old keep rest (amid f i before bridge) =
      rest (amid f i (before ++ calls) (keep (pin f i k) bridge)) := by
  unfold claimPin
  rw [amidPin, answers]
  dsimp only
  rw [if_pos rfl, amidCalled, amidBridge, amidKept, amidPin]

theorem claimPinRefused (answers : Responds (ask (pin f i k)) false calls) (before : List DriverCall) (bridge : HBridge) :
    claimPin i k ask old keep rest (amid f i before bridge) =
      (.wrongPins, setPin (amid f i (before ++ calls) bridge) i k (old bridge)) := by
  unfold claimPin
  rw [amidPin, answers]
  dsimp only
  rw [if_neg Bool.false_ne_true, amidCalled, amidBridge]

end Claim

theorem startBridgeOutcome (b : Board F) (type : HBridgeType) (i : Nat) (f : State F) : startBridge b type i f =
    amid f i (finiCalls b (f.bridges i)) { f.bridges i with ops := some type } := by
  unfold startBridge
  rw [hBridgeFiniCalls]
  rfl

/- An optional pin that is refused is a used one. -/
theorem optionalRefused {pin : UInt8} (refused : optionalPin b pin = false) (calls : List DriverCall) :
    whenUsed pin (granted (b.digioPin pin) calls) = [] := by
  rw [optionalPin, Bool.or_eq_false_iff] at refused
  rw [refused.2]
  unfold whenUsed granted
  split <;> rfl

theorem hBridgePwmDirOutcome (b : Board F) (i : Nat) (f : State F) :
    let o := pwmDirOutcome b (f.bridges i) (pin f i 0) (pin f i 1) (pin f i 2)
    hBridgePwmDirInit b i f = (o.status, o.applied i f) := by
  have direction := digioOutputAnswers b 0 (pin f i 1)
  have brake := brakeOutputAnswers b (pin f i 2)
  have pwm := pwmOutputAnswers b (pin f i 0)
  unfold hBridgePwmDirInit pwmDirOutcome
  dsimp only
  rw [startBridgeOutcome]
  cases directionAccepted : b.digioPin (pin f i 1) with
  | false =>
    rw [directionAccepted] at direction
    rw [claimPinRefused direction, refusedNone, List.append_nil]
    rfl
  | true =>
    rw [directionAccepted] at direction
    rw [claimPinGranted direction, if_pos rfl]
    cases brakeAccepted : optionalPin b (pin f i 2) with
    | false =>
      rw [brakeAccepted] at brake
      rw [claimPinRefused brake, optionalRefused brakeAccepted, List.append_nil]
      rfl
    | true =>
      rw [brakeAccepted] at brake
      rw [claimPinGranted brake, if_pos rfl]
      cases pwmAccepted : b.pwmPin (pin f i 0) with
      | false =>
        rw [pwmAccepted] at pwm
        rw [claimPinRefused pwm, refusedNone, List.append_nil]
        rfl
      | true =>
        rw [pwmAccepted] at pwm
        rw [claimPinGranted pwm]
        rfl

theorem claimBackwardOutcome (b : Board F) (i : Nat) (f : State F) (calls : List DriverCall) (bridge : HBridge) :
    claimBackward b i (amid f i calls bridge) =
      if b.pwmPin (pin f i 1) then
        (.success, amid f i (calls ++ [.pwmEnable (pin f i 1) true, .setDutyCycle (pin f i 1) 0])
          { bridge with pin1 := pin f i 1 })
      else (.success, setPin (amid f i calls bridge) i 1 bridge.pin1) := by
  unfold claimBackward
  rw [pwmOutputAnswers, amidPin, amidCalled]
  dsimp only
  cases b.pwmPin (pin f i 1) with
  | true =>
    rw [if_pos rfl, if_pos rfl, amidBridge, amidKept]
    rfl
  | false =>
    have again : pin (setPin (amid f i calls bridge) i 1 bridge.pin1) i 1 = bridge.pin1 := setByteSame _ _ _ _
    have still : (setPin (amid f i calls bridge) i 1 bridge.pin1).bridges i = bridge := amidBridge calls bridge
    rw [if_neg Bool.false_ne_true, if_neg Bool.false_ne_true, refusedNone, List.append_nil,
      amidBridge, again, still]
    exact congrArg (fun g => (PacketStatus.success, setPin g i 1 bridge.pin1)) (amidKept calls bridge bridge)

theorem hBridgeDualPwmOutcome (b : Board F) (i : Nat) (f : State F) :
    let o := dualPwmOutcome b (f.bridges i) (pin f i 0) (pin f i 1)
    hBridgeDualPwmInit b i f = (o.status, o.applied i f) := by
  have forward := pwmOutputAnswers b (pin f i 0)
  unfold hBridgeDualPwmInit dualPwmOutcome
  dsimp only
  rw [startBridgeOutcome]
  cases forwardAccepted : b.pwmPin (pin f i 0) with
  | false =>
    rw [forwardAccepted] at forward
    rw [claimPinRefused forward, refusedNone, List.append_nil]
    rfl
  | true =>
    rw [forwardAccepted] at forward
    rw [claimPinGranted forward, claimBackwardOutcome, if_pos rfl]
    cases b.pwmPin (pin f i 1) <;> rfl

theorem hBridgeHalfPwmOutcome (b : Board F) (i : Nat) (f : State F) :
    let o := halfPwmOutcome b (f.bridges i) (pin f i 0) (pin f i 1)
    hBridgeHalfPwmInit b i f = (o.status, o.applied i f) := by
  have pwm := pwmStoppedAnswers b (pin f i 0)
  have enable := optionalOutputAnswers b 1 (pin f i 1)
  unfold hBridgeHalfPwmInit halfPwmOutcome
  dsimp only
  rw [startBridgeOutcome]
  cases pwmAccepted : b.pwmPin (pin f i 0) with
  | false =>
    rw [pwmAccepted] at pwm
    rw [claimPinRefused pwm, refusedNone, List.append_nil]
    rfl
  | true =>
    rw [pwmAccepted] at pwm
    rw [claimPinGranted pwm, if_pos rfl]
    cases enableAccepted : optionalPin b (pin f i 1) with
    | false =>
      rw [enableAccepted] at enable
      rw [claimPinRefused enable, optionalRefused enableAccepted, List.append_nil]
      rfl
    | true =>
      rw [enableAccepted] at enable
      rw [claimPinGranted enable]
      rfl

/- The code is the outcome applied to its state. -/
theorem hBridgeInitOutcome (b : Board F) (i : Nat) (type : UInt8) (f : State F) :
    let o := bridgeOutcome b (f.bridges i) (pin f i 0) (pin f i 1) (pin f i 2) type
    hBridgeInit b i type f = (o.status, o.applied i f) := by
  unfold hBridgeInit bridgeOutcome
  dsimp only
  split
  · exact hBridgePwmDirOutcome b i f
  split
  · exact hBridgeDualPwmOutcome b i f
  split
  · exact hBridgeHalfPwmOutcome b i f
  · have still : amid f i [] (f.bridges i) = f := by
      unfold amid setBridge
      rw [calledNone, Function.update_eq_self]
    exact congrArg (fun g => (PacketStatus.unknownType, g)) still.symm

end Init

end OrazioLogger.Firmware
