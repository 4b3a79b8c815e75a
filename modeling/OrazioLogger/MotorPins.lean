import OrazioLogger.Pins
import OrazioLogger.BridgeOwnership
import OrazioLogger.PacketHeaders

/-! The bridges on the registers of the Arduino board: after every tick the pins show what the joint controllers put out,
and once the watchdog has run down they stay at rest. -/
namespace OrazioLogger.Firmware
open ByteMemory OrazioPackets OrazioComm Countdown Saturation Registers

variable {F : Type}

/-! The registers behind the calls of the drivers. -/

abbrev PinRegisters := File Pins.AvrRegister 8

def DriverCall.pin (call : DriverCall) : UInt8 := call.target.2

def DriverCall.request : DriverCall → Pins.Call
  | .setDirection _ output => .setDirection output
  | .setValue _ value => .setValue value
  | .pwmEnable _ enable => .enable enable
  | .setDutyCycle _ duty => .setDutyCycle duty

def onPin (regs : PinRegisters) (call : DriverCall) : PinRegisters :=
  (Pins.perform Pins.atmega2560 call.pin regs call.request).2

def onPins (regs : PinRegisters) (calls : List DriverCall) : PinRegisters := calls.foldl onPin regs

def pinKind (pin : UInt8) : Pins.Kind := (Pins.atmega2560.single pin).kind

/- The board whose drivers are those of arch/atmega2560. -/
structure Arduino (b : Board F) : Prop where
  digio : ∀ pin, b.digioPin pin = true ↔ pinKind pin ≠ .missing
  pwm : ∀ pin, b.pwmPin pin = true ↔ pinKind pin = .pwm

theorem atmega2560Arduino : Arduino atmega2560 := by
  have table : ∀ n < 256, (atmega2560.digioPin (UInt8.ofNat n) = true ↔ pinKind (UInt8.ofNat n) ≠ .missing) ∧
      (atmega2560.pwmPin (UInt8.ofNat n) = true ↔ pinKind (UInt8.ofNat n) = .pwm) := by decide +kernel
  have every : ∀ pin : UInt8, UInt8.ofNat pin.toNat = pin := fun pin => UInt8.ofNat_toNat
  refine ⟨fun pin => ?_, fun pin => ?_⟩
  · rw [← every pin]
    exact (table pin.toNat pin.toNat_lt).1
  · rw [← every pin]
    exact (table pin.toNat pin.toNat_lt).2

section Registers
variable {b : Board F} {regs : PinRegisters} {pin : UInt8}

theorem onPinsAppend (regs : PinRegisters) (calls more : List DriverCall) :
    onPins regs (calls ++ more) = onPins (onPins regs calls) more := List.foldl_append

/- A driver of the board does to the record of the calls what the driver of the chip does to the registers. -/
def Drives (ask : State F → Bool × State F) (pin : UInt8) (call : Pins.Call) : Prop :=
  ∀ (regs : PinRegisters) (f : State F),
    let done := Pins.perform Pins.atmega2560 pin (onPins regs f.driverCalls) call
    ((ask f).1 = true ↔ 0 ≤ done.1) ∧ onPins regs (ask f).2.driverCalls = done.2

theorem respondsDrives {ask : State F → Bool × State F} {accepted : Bool} {call : DriverCall}
    (responds : Responds ask accepted (granted accepted [call]))
    (able : accepted = true ↔ pinKind call.pin ∈ call.request.needs)
    (writes : ∀ seen, Pins.Single.answer seen call.request = 0) : Drives ask call.pin call.request := by
  intro regs f
  have own := Pins.atmega2560Laid.ownStep call.pin (onPins regs f.driverCalls) call.request
  rw [responds]
  cases taken : accepted with
  | true =>
    unfold Pins.Single.step at own
    have needed : (Pins.atmega2560.single call.pin).kind ∈ call.request.needs := able.mp taken
    rw [if_pos needed, writes] at own
    have answer := (Prod.mk.inj own).1
    refine ⟨iff_of_true rfl (by rw [answer]), ?_⟩
    rw [grantedAll, State.called, onPinsAppend]
    rfl
  | false =>
    have refused : pinKind call.pin ∉ call.request.needs := fun needed => by
      rw [able.mpr needed] at taken
      cases taken
    dsimp only
    rw [Pins.performRefused _ refused, refusedNone, calledNone]
    refine ⟨iff_of_false Bool.false_ne_true ?_, rfl⟩
    change ¬ (0 : Int) ≤ -1
    decide

theorem Arduino.drivers (arduino : Arduino b) :
    (∀ pin output, Drives (digioSetDirection b pin output) pin (.setDirection output)) ∧
    (∀ pin value, Drives (digioSetValue b pin value) pin (.setValue value)) ∧
    (∀ pin enable, Drives (pwmEnable b pin enable) pin (.enable enable)) ∧
    ∀ pin duty, Drives (pwmSetDutyCycle b pin duty) pin (.setDutyCycle duty) := by
  have digital : ∀ pin, b.digioPin pin = true ↔ pinKind pin ∈ [.digital, .pwm] := by
    intro pin
    rw [arduino.digio]
    cases pinKind pin <;> simp
  have channel : ∀ pin, b.pwmPin pin = true ↔ pinKind pin ∈ [.pwm] := by
    intro pin
    rw [arduino.pwm, List.mem_singleton]
  exact ⟨fun pin output => respondsDrives (digioSetDirectionAnswers b pin output) (digital pin) fun _ => rfl,
    fun pin value => respondsDrives (digioSetValueAnswers b pin value) (digital pin) fun _ => rfl,
    fun pin enable => respondsDrives (pwmEnableAnswers b pin enable) (channel pin) fun _ => rfl,
    fun pin duty => respondsDrives (pwmSetDutyCycleAnswers b pin duty) (channel pin) fun _ => rfl⟩

/-! What the registers show of a pin. -/

def dutyOf (regs : PinRegisters) (pin : UInt8) : Int := (Pins.atmega2560.seen regs pin).duty

def latchOf (regs : PinRegisters) (pin : UInt8) : Bool := (Pins.atmega2560.seen regs pin).latch

theorem onPinSeen (regs : PinRegisters) (call : DriverCall) : Pins.atmega2560.seen (onPin regs call) call.pin =
    ((Pins.atmega2560.single call.pin).step (Pins.atmega2560.seen regs call.pin) call.request).2 :=
  (Prod.mk.inj (Pins.atmega2560Laid.ownStep call.pin regs call.request)).2

theorem onPinOther {call : DriverCall} (other : call.pin ≠ pin) (regs : PinRegisters) :
    Pins.atmega2560.seen (onPin regs call) pin = Pins.atmega2560.seen regs pin :=
  Pins.atmega2560Laid.seenOther other regs call.request

theorem dutyOnPin (channel : pinKind pin = .pwm) {duty : UInt8} (start : dutyOf regs pin = duty.toNat) (call : DriverCall) :
    dutyOf (onPin regs call) pin = (dutyStep pin duty call).toNat := by
  by_cases same : call.pin = pin
  · subst same
    unfold dutyOf at start ⊢
    rw [onPinSeen]
    unfold pinKind at channel
    unfold Pins.Single.step
    rw [channel]
    cases call with
    | setDirection | setValue => exact start
    | pwmEnable pin enable =>
      rw [if_pos (by simp [DriverCall.request, Pins.Call.needs])]
      simp only [dutyStep, DriverCall.pin, DriverCall.target, if_true]
      rfl
    | setDutyCycle pin duty =>
      rw [if_pos (by simp [DriverCall.request, Pins.Call.needs])]
      simp only [dutyStep, DriverCall.pin, DriverCall.target, if_true]
      rfl
  · unfold dutyOf at start ⊢
    rw [onPinOther same, start]
    cases call with
    | setDirection | setValue => rfl
    | pwmEnable named enable =>
      change named ≠ pin at same
      rw [dutyStep, if_neg same]
    | setDutyCycle named duty =>
      change named ≠ pin at same
      rw [dutyStep, if_neg same]

/- The duty cycle of a pin after any calls is what the record of the calls says. -/
theorem dutyOnPins (channel : pinKind pin = .pwm) {duty : UInt8} (start : dutyOf regs pin = duty.toNat) (calls : List DriverCall) :
    dutyOf (onPins regs calls) pin = (calls.foldl (dutyStep pin) duty).toNat := by
  induction calls generalizing regs duty with
  | nil => exact start
  | cons call rest ih => exact ih (dutyOnPin channel start call)

def latchStep (pin : UInt8) (latch : Bool) : DriverCall → Bool
  | .setValue written value => if written = pin then value != 0 else latch
  | _ => latch

theorem latchOnPin (digital : pinKind pin ≠ .missing) (regs : PinRegisters) (call : DriverCall) :
    latchOf (onPin regs call) pin = latchStep pin (latchOf regs pin) call := by
  by_cases same : call.pin = pin
  · subst same
    unfold latchOf
    rw [onPinSeen]
    unfold pinKind at digital
    unfold Pins.Single.step
    cases call with
    | setDirection | pwmEnable | setDutyCycle => split <;> rfl
    | setValue pin value =>
      rw [if_pos (by cases kind : (Pins.atmega2560.single _).kind <;> simp_all [DriverCall.request, Pins.Call.needs])]
      simp only [latchStep, DriverCall.pin, DriverCall.target, if_true]
      rfl
  · unfold latchOf
    rw [onPinOther same]
    cases call with
    | setDirection | pwmEnable | setDutyCycle => rfl
    | setValue named value =>
      change named ≠ pin at same
      rw [latchStep, if_neg same]

theorem latchOnPins (digital : pinKind pin ≠ .missing) (regs : PinRegisters) (calls : List DriverCall) :
    latchOf (onPins regs calls) pin = calls.foldl (latchStep pin) (latchOf regs pin) := by
  induction calls generalizing regs with
  | nil => rfl
  | cons call rest ih =>
    refine (ih (onPin regs call)).trans ?_
    rw [latchOnPin digital]
    rfl

theorem dutyStarts (channel : pinKind pin = .pwm) (regs : PinRegisters) : ∃ duty : UInt8, dutyOf regs pin = duty.toNat := by
  obtain ⟨m, t, found, pwm⟩ := Pins.Chip.pwmFound channel
  have low := (regs t.ocRegister).isLt
  refine ⟨UInt8.ofNat (255 - (regs t.ocRegister).toNat), ?_⟩
  unfold dutyOf
  rw [Pins.Chip.seenFound found]
  simp only [Pins.Pin.seen, pwm, Option.elim_some, readWhole]
  change (255 : Int) - (regs t.ocRegister).toNat = _
  rw [UInt8.toNat_ofNat']
  omega

end Registers

/-! What a bridge shows of the speed that it was given last. -/

def Shows (b : Board F) (regs : PinRegisters) (bridge : HBridge) (speed : Int) : Prop :=
  match bridge.ops with
  | none => True
  | some .pwmDir => (b.digioPin bridge.pin1 = true → latchOf regs bridge.pin1 = decide (speed < 0)) ∧
      (b.pwmPin bridge.pin0 = true → dutyOf regs bridge.pin0 = min 255 (if 0 ≤ speed then speed else (-speed) % 65536))
  | some .dualPwm => (b.pwmPin bridge.pin0 = true → dutyOf regs bridge.pin0 = max 0 (saturate 255 speed)) ∧
      (b.pwmPin bridge.pin1 = true → dutyOf regs bridge.pin1 = max 0 (-saturate 255 speed))
  | some .halfCyclePwm => b.pwmPin bridge.pin0 = true → dutyOf regs bridge.pin0 = 127 + (saturate 255 speed).tdiv 2

section Shows
variable {b : Board F} {regs later : PinRegisters} {bridge : HBridge} {pin : UInt8} {calls : List DriverCall} {speed : Int}

/- Calls for other pins, or for other roles of the pin. -/
theorem dutyUnwritten (channel : pinKind pin = .pwm) (none : (Role.pwm, pin) ∉ calls.map DriverCall.target)
    (regs : PinRegisters) : dutyOf (onPins regs calls) pin = dutyOf regs pin := by
  obtain ⟨duty, start⟩ := dutyStarts channel regs
  rw [dutyOnPins channel start, start]
  induction calls with
  | nil => rfl
  | cons call rest ih =>
    rw [List.map_cons, List.mem_cons, not_or] at none
    rw [List.foldl_cons]
    have still : dutyStep pin duty call = duty := by
      cases call with
      | setDirection | setValue => rfl
      | pwmEnable named enable => exact if_neg fun same => none.1 (by rw [same]; rfl)
      | setDutyCycle named value => exact if_neg fun same => none.1 (by rw [same]; rfl)
    rw [still]
    exact ih none.2

theorem latchUnwritten (digital : pinKind pin ≠ .missing) (none : (Role.digital, pin) ∉ calls.map DriverCall.target)
    (regs : PinRegisters) : latchOf (onPins regs calls) pin = latchOf regs pin := by
  rw [latchOnPins digital]
  generalize latchOf regs pin = latch
  induction calls with
  | nil => rfl
  | cons call rest ih =>
    rw [List.map_cons, List.mem_cons, not_or] at none
    rw [List.foldl_cons]
    have still : latchStep pin latch call = latch := by
      cases call with
      | setDirection | pwmEnable | setDutyCycle => rfl
      | setValue named value => exact if_neg fun same => none.1 (by rw [same]; rfl)
    rw [still]
    exact ih none.2

/- Whatever leaves the driven pins of the bridge alone. -/
theorem Shows.kept (arduino : Arduino b) (shows : Shows b regs bridge speed)
    (apart : ∀ target ∈ drivenPins b bridge, target ∉ calls.map DriverCall.target) :
    Shows b (onPins regs calls) bridge speed := by
  have duty : ∀ pin, b.pwmPin pin = true → (Role.pwm, pin) ∈ drivenPins b bridge →
      dutyOf (onPins regs calls) pin = dutyOf regs pin := fun pin channel driven =>
    dutyUnwritten ((arduino.pwm pin).mp channel) (apart _ driven) regs
  have latch : ∀ pin, b.digioPin pin = true → (Role.digital, pin) ∈ drivenPins b bridge →
      latchOf (onPins regs calls) pin = latchOf regs pin := fun pin digital driven =>
    latchUnwritten ((arduino.digio pin).mp digital) (apart _ driven) regs
  unfold Shows at shows ⊢
  unfold drivenPins at duty latch
  cases ops : bridge.ops with
  | none => trivial
  | some type =>
    rw [ops] at shows duty latch
    cases type with
    | pwmDir =>
      refine ⟨fun digital => (latch _ digital ?_).trans (shows.1 digital), fun channel => (duty _ channel ?_).trans (shows.2 channel)⟩
      · exact List.mem_append_left _ (by rw [digital]; exact List.mem_cons_self)
      · exact List.mem_append_right _ (by rw [channel]; exact List.mem_cons_self)
    | dualPwm =>
      refine ⟨fun channel => (duty _ channel ?_).trans (shows.1 channel), fun channel => (duty _ channel ?_).trans (shows.2 channel)⟩
      · exact List.mem_append_left _ (by rw [channel]; exact List.mem_cons_self)
      · exact List.mem_append_right _ (by rw [channel]; exact List.mem_cons_self)
    | halfCyclePwm =>
      exact fun channel => (duty _ channel (by dsimp only; rw [channel]; exact List.mem_cons_self)).trans (shows channel)

/- One call that a driver accepts. -/
theorem dutyWritten (channel : pinKind pin = .pwm) (duty : UInt8) (regs : PinRegisters) :
    dutyOf (onPins regs [.setDutyCycle pin duty]) pin = duty.toNat := by
  obtain ⟨old, start⟩ := dutyStarts channel regs
  rw [dutyOnPins channel start]
  simp [dutyStep]

theorem latchWritten (digital : pinKind pin ≠ .missing) (value : UInt8) (regs : PinRegisters) :
    latchOf (onPins regs [.setValue pin value]) pin = (value != 0) := by
  rw [latchOnPins digital]
  simp [latchStep]

/- Each speed is shown until its pins are written again. -/
theorem speedShown (arduino : Arduino b) (once : (drivenPins b bridge).Nodup) (regs : PinRegisters) (speed : Int) :
    Shows b (onPins regs (speedCalls b bridge speed)) bridge speed := by
  have limited : (if (if 255 < speed then 255 else speed) < -255 then -255 else if 255 < speed then 255 else speed) =
      saturate 255 speed := by
    unfold saturate
    omega
  have bounds := dutyBounds speed
  have dutyShown : ∀ (regs : PinRegisters) (pin : UInt8) (duty : Int), b.pwmPin pin = true → duty ≤ 255 →
      dutyOf (onPins regs [.setDutyCycle pin (UInt8.ofNat duty.toNat)]) pin = max 0 duty := by
    intro regs pin duty channel small
    rw [dutyWritten ((arduino.pwm pin).mp channel), UInt8.toNat_ofNat']
    omega
  unfold Shows
  unfold drivenPins at once
  unfold speedCalls
  dsimp only
  cases ops : bridge.ops with
  | none => trivial
  | some type =>
    rw [ops] at once
    cases type with
    | pwmDir =>
      refine ⟨fun digital => ?_, fun channel => ?_⟩
      · rw [digital, grantedAll, onPinsAppend, latchUnwritten ((arduino.digio _).mp digital),
          latchWritten ((arduino.digio _).mp digital)]
        · by_cases forwards : 0 ≤ speed
          · simp [forwards, not_lt.mpr forwards]
          · simp [forwards, not_le.mp forwards]
        · cases b.pwmPin bridge.pin0 <;> simp [DriverCall.target]
      · rw [channel, grantedAll, onPinsAppend, dutyShown _ _ _ channel (by split <;> omega)]
        split <;> omega
    | dualPwm =>
      dsimp only
      rw [limited]
      refine ⟨fun channel => ?_, fun channel => ?_⟩
      · rw [channel, grantedAll, onPinsAppend, dutyUnwritten ((arduino.pwm _).mp channel), dutyShown _ _ _ channel bounds.2]
        cases other : b.pwmPin bridge.pin1 with
        | false => simp
        | true =>
          dsimp only at once
          rw [channel, other] at once
          simp only [grantedAll, List.cons_append, List.nil_append, List.nodup_cons, List.mem_singleton] at once
          simp only [grantedAll, List.map_cons, List.map_nil, DriverCall.target, List.mem_singleton]
          exact once.1
      · rw [channel, grantedAll, onPinsAppend, dutyShown _ _ _ channel (by omega)]
    | halfCyclePwm =>
      intro channel
      have half : -127 ≤ (saturate 255 speed).tdiv 2 ∧ (saturate 255 speed).tdiv 2 ≤ 127 := by
        rcases Int.le_total 0 (saturate 255 speed) with forwards | backwards
        · rw [Int.tdiv_eq_ediv_of_nonneg forwards]
          omega
        · rw [← Int.neg_neg (saturate 255 speed), Int.neg_tdiv, Int.tdiv_eq_ediv_of_nonneg (by omega)]
          omega
      dsimp only
      rw [limited, channel, grantedAll, dutyShown _ _ _ channel (by omega)]
      omega

/- The calls of one tick. -/
def tickCalls (b : Board F) (bridges : Nat → HBridge) (speeds : Nat → Int) : List DriverCall :=
  speedCalls b (bridges 0) (speeds 0) ++ speedCalls b (bridges 1) (speeds 1)

/- No pin is driven twice. -/
def PinsApart (b : Board F) (bridges : Nat → HBridge) : Prop := (drivenPins b (bridges 0) ++ drivenPins b (bridges 1)).Nodup

instance (b : Board F) (bridges) : Decidable (PinsApart b bridges) := inferInstanceAs (Decidable (List.Nodup _))

theorem tickShown (arduino : Arduino b) {bridges : Nat → HBridge} (apart : PinsApart b bridges) (regs : PinRegisters)
    (speeds : Nat → Int) : ∀ i < numJoints, Shows b (onPins regs (tickCalls b bridges speeds)) (bridges i) (speeds i) := by
  obtain ⟨first, second, others⟩ := List.nodup_append.mp apart
  intro i inside
  unfold tickCalls
  rw [onPinsAppend]
  match i with
  | 0 =>
    refine (speedShown arduino first regs (speeds 0)).kept arduino fun target driven => ?_
    rw [speedTargets]
    exact fun again => others target driven target again rfl
  | 1 => exact speedShown arduino second _ (speeds 1)
  | i + 2 => exact absurd inside (by unfold numJoints; omega)

end Shows

/-! Ticks. -/

section Ticks
variable {b : Board F} {f later : State F}

def jointOutputs (f : State F) (i : Nat) : Int := (f.jointControllers i).output

theorem controllerCalls (enc : UInt16) (i : Nat) (f : State F) : (jointControllerHandle enc i f).driverCalls = f.driverCalls := by
  unfold jointControllerHandle
  dsimp only
  split
  · split_ifs <;> rfl
  · rfl

/- A tick writes what the controllers put out in it. -/
theorem jointsHandleCalls (b : Board F) (encoders : Nat → UInt16) (f : State F) :
    (jointsHandle b encoders f).driverCalls =
      f.driverCalls ++ tickCalls b f.bridges (jointOutputs (jointsHandle b encoders f)) := by
  let g := jointControllerHandle (encoders 1) 1 (jointControllerHandle (encoders 0) 0 f)
  have only : TickOnly f g := (jointControllerHandleOnly _ 0 f).trans (jointControllerHandleOnly _ 1 _)
  have calls : g.driverCalls = f.driverCalls := (controllerCalls _ 1 _).trans (controllerCalls _ 0 f)
  have bridges : g.bridges = f.bridges := by rw [only.same]
  have handled : jointsHandle b encoders f =
      (g.called (speedCalls b (g.bridges 0) (jointOutputs g 0))).called (speedCalls b (g.bridges 1) (jointOutputs g 1)) := by
    let h := (hBridgeSetSpeed b 0 (jointOutputs g 0) g).2
    change (hBridgeSetSpeed b 1 (jointOutputs h 1) h).2 = _
    have first : h = g.called (speedCalls b (g.bridges 0) (jointOutputs g 0)) := hBridgeSetSpeedCalls b 0 _ g
    rw [hBridgeSetSpeedCalls, first]
    rfl
  rw [handled]
  unfold tickCalls
  rw [calledTwice, ← bridges, ← calls]
  rfl

end Ticks

/-! Joints that are off. Each tick writes a speed of 0, and nothing else reaches the pins. -/

def Known (c : Control) : Prop := c.lastDriveControlSeq = c.driveControlSeq

structure Parked (f : State F) : Prop where
  bound : Bound f
  safe : Safe f
  known : Known (control f)

def restCalls (b : Board F) (bridges : Nat → HBridge) : List DriverCall := tickCalls b bridges fun _ => 0

/- `n` ticks that leave the joints off. -/
structure Rests (b : Board F) (n : Nat) (f later : State F) : Prop where
  parked : Parked later
  bridges : later.bridges = f.bridges
  calls : later.driverCalls = f.driverCalls ++ (List.replicate n (restCalls b f.bridges)).flatten

section Parked
variable {b : Board F} {n k : Nat} {f mid later : State F}

theorem Rests.refl (parked : Parked f) : Rests b 0 f f := ⟨parked, rfl, (List.append_nil _).symm⟩

theorem Rests.trans (first : Rests b n f mid) (second : Rests b k mid later) : Rests b (n + k) f later := by
  refine ⟨second.parked, second.bridges.trans first.bridges, ?_⟩
  rw [second.calls, first.calls, first.bridges, List.replicate_add, List.flatten_append, List.append_assoc]

/- A step that does not get at the joints. -/
theorem Parked.rests (parked : Parked f) (controlled : control later = { control f with sonarReady := later.sonarReady })
    (controllers : later.jointControllers = f.jointControllers) (bridges : later.bridges = f.bridges)
    (calls : later.driverCalls = f.driverCalls) : Rests b 0 f later := by
  have off : enabled later = enabled f := congrArg Control.enabled controlled
  have modes : ∀ i, jointMode later i = jointMode f i := fun i => congrArg (fun c => (Control.joints c i).mode) controlled
  refine ⟨⟨?_, ?_, ?_⟩, bridges, by rw [calls]; exact (List.append_nil _).symm⟩
  · unfold Bound
    rw [controllers]
    exact parked.bound
  · unfold Safe
    rw [off, controllers]
    refine ⟨parked.safe.1, fun i inside => ?_⟩
    rw [modes]
    exact parked.safe.2 i inside
  · rw [controlled]
    exact parked.known

theorem jointsHandleRests (encoders : Nat → UInt16) (parked : Parked f) : Rests b 1 f (jointsHandle b encoders f) := by
  have only := jointsHandleOnly b encoders f
  have safe : Safe (jointsHandle b encoders f) := only.safe parked.bound parked.safe
  refine ⟨⟨only.bound parked.bound, safe, ?_⟩, by rw [only.same], ?_⟩
  · rw [only.control]
    exact parked.known
  · rw [jointsHandleCalls, List.replicate_one, List.flatten_singleton, restCalls, tickCalls, tickCalls]
    rw [show jointOutputs (jointsHandle b encoders f) 0 = 0 from (safe.2 0 (by decide)).2,
      show jointOutputs (jointsHandle b encoders f) 1 = 0 from (safe.2 1 (by decide)).2]

theorem driveUpdateRests (parked : Parked f) : Rests b 0 f (driveUpdate b f) := by
  have only := driveUpdateOnly b f
  refine parked.rests ?_ ?_ ?_ ?_
  · rw [driveUpdateControl, only.same]
    rfl
  all_goals rw [only.same]

theorem driveControlRests (parked : Parked f) : Rests b 0 f (driveControl b f) := by
  rw [driveControlIdle parked.known parked.safe.1]
  exact .refl parked

/- A step beside the joints and the drive. -/
structure Aside (f later : State F) : Prop where
  control : control later = { Firmware.control f with sonarReady := later.sonarReady }
  controllers : later.jointControllers = f.jointControllers
  bridges : later.bridges = f.bridges
  calls : later.driverCalls = f.driverCalls

theorem Aside.trans (first : Aside f mid) (second : Aside mid later) : Aside f later := by
  refine ⟨?_, second.controllers.trans first.controllers, second.bridges.trans first.bridges, second.calls.trans first.calls⟩
  rw [second.control, first.control]

theorem sonarHandleAside (ranges : Nat → UInt16) (f : State F) : Aside f (sonarHandle ranges f) := by
  have polled : ∀ (sonars : List Nat) (g : State F),
      Aside g (sonars.foldl (fun f s => setWord f .sonarStatus (4 + 2 * s) (ranges s)) g) := by
    intro sonars
    induction sonars with
    | nil => exact fun g => ⟨rfl, rfl, rfl, rfl⟩
    | cons s rest ih =>
      intro g
      have one : Aside g (setWord g .sonarStatus (4 + 2 * s) (ranges s)) := ⟨rfl, rfl, rfl, rfl⟩
      exact one.trans (ih _)
  have counted : ∀ (g : State F) ready cycle polls,
      Aside g { g with sonarReady := ready, sonarCurrentCycle := cycle, sonarPolls := polls } := fun _ _ _ _ =>
    ⟨rfl, rfl, rfl, rfl⟩
  unfold sonarHandle
  dsimp only
  split
  · exact counted f _ _ _
  split
  · exact counted f _ _ _
  · generalize List.range sonarsNum = sonars
    exact ((counted f false _ f.sonarPolls).trans (polled sonars _)).trans (counted _ _ _ _)

theorem sonarHandleRests (ranges : Nat → UInt16) (parked : Parked f) : Rests b 0 f (sonarHandle ranges f) := by
  have aside := sonarHandleAside ranges f
  exact parked.rests aside.control aside.controllers aside.bridges aside.calls

theorem setStatusRests (offset : Nat) (v : UInt16) (parked : Parked f) : Rests b 0 f (setWord f .systemStatus offset v) :=
  parked.rests rfl rfl rfl rfl

theorem setIdleCyclesRests (v : UInt32) (parked : Parked f) : Rests b 0 f (setIdleCycles v f) := by
  refine parked.rests ?_ rfl rfl rfl
  rw [(setIdleCyclesTick v f).control]
  rfl

theorem watchdogExpireRests (parked : Parked f) : Rests b 0 f (watchdogExpire f) := by
  have bound : Bound (setByte f .driveStatus 40 0) := parked.bound
  have disabled := jointsDisableBound bound
  refine ⟨⟨(watchdogExpireCarries parked.bound).bound parked.bound, watchdogExpireSafe parked.bound, ?_⟩, ?_, ?_⟩
  · rw [watchdogExpireControl parked.bound]
    exact parked.known
  · unfold watchdogExpire
    rw [disabled]
    rfl
  · unfold watchdogExpire
    rw [disabled]
    exact (List.append_nil _).symm

theorem watchdogHandleRests (parked : Parked f) : Rests b 0 f (watchdogHandle f) := by
  have down : Rests b 0 f (countDown f) := by
    unfold countDown
    split
    · exact setStatusRests _ _ parked
    · exact .refl parked
  rw [watchdogHandleCounts]
  split
  · exact setStatusRests _ _ parked
  split
  · exact down.trans (watchdogExpireRests down.parked)
  · exact down

/- A turn of the loop outside `Orazio_commHandle`. -/
theorem restsFrame (b : Board F) : LoopFrame b fun s later => Parked s.app → ∃ n, Rests b n s.app later.app where
  refl _ parked := ⟨0, .refl parked⟩
  trans _ _ _ first second parked := by
    obtain ⟨n, one⟩ := first parked
    obtain ⟨k, two⟩ := second one.parked
    exact ⟨n + k, one.trans two⟩
  flags _ _ _ parked := ⟨0, .refl parked⟩
  joints _ encoders parked := ⟨1, jointsHandleRests encoders parked⟩
  driven _ parked := ⟨0, driveUpdateRests parked⟩
  controlled _ parked := ⟨0, driveControlRests parked⟩
  sonars _ ranges parked := ⟨0, sonarHandleRests ranges parked⟩
  reset _ parked := ⟨0, setStatusRests _ _ parked⟩
  watchdog _ parked := ⟨0, watchdogHandleRests parked⟩
  idle _ parked := ⟨0, setIdleCyclesRests _ parked⟩
  finished _ parked := ⟨0, setIdleCyclesRests _ parked⟩

/- `Orazio_commHandle` when nothing is accepted. -/
theorem commHandleRests {line : Line} {m : Machine F} (pending : m.queue.pendingPackets = []) (none : accepted line m = 0)
    (parked : Parked m.outside.app) : Rests b 0 m.outside.app (commHandle b line m).2.outside.app := by
  have received := beginEpochOnly line m
  have queue : (beginEpoch line m).queue = m.queue := receivedQueue line.received _ none
  have nothing : (processPending b (beginEpoch line m)).outside = (beginEpoch line m).outside := by
    unfold processPending DeferredPacketHandler.processPendingPackets
    rw [queue, pending]
    rfl
  have sent := sendPeriodicOnly b (beginEpoch line m).outside
  have completed : (completeEpoch b (processPending b (beginEpoch line m))).outside = sendPeriodic b (beginEpoch line m).outside := by
    unfold completeEpoch
    rw [nothing]
  have first : Rests b 0 m.outside.app (beginEpoch line m).outside.app := by
    refine parked.rests ?_ ?_ ?_ ?_
    · rw [received.control, received.same]
      rfl
    all_goals rw [received.same]
  have second : Rests b 0 (beginEpoch line m).outside.app (sendPeriodic b (beginEpoch line m).outside).app := by
    refine first.parked.rests ?_ ?_ ?_ ?_
    · rw [sent.control, sent.same]
      rfl
    all_goals rw [sent.same]
  unfold commHandle flushOutputBuffers
  rw [completed]
  exact (first.trans second).trans (setStatusRests _ _ second.parked)

end Parked

/-! Runs. -/

section Runs
variable {b : Board F} {turn : Turn} {s : Main F} {before quiet after : List Turn}

theorem onTimerTickRests (encoders : Nat → UInt16) (parked : Parked s.app) : Rests b 1 s.app (onTimerTick b s encoders).app := by
  have handled : Rests b 1 s.app (s.update (jointsHandle b encoders)).app := jointsHandleRests encoders parked
  unfold onTimerTick
  dsimp only
  split <;> exact handled

theorem ticksRests (encoders : List (Nat → UInt16)) (parked : Parked s.app) :
    Rests b encoders.length s.app (encoders.foldl (onTimerTick b) s).app := by
  induction encoders generalizing s with
  | nil => exact .refl parked
  | cons first rest ih =>
    have one := onTimerTickRests (b := b) first parked
    have more := one.trans (ih one.parked)
    rwa [Nat.add_comm] at more

/- The ticks at the head of the turn are among those that it counts. -/
theorem idleTurnRests (turn : Turn) (parked : Parked s.app) : ∃ n, (turn.ticks 0).length ≤ n ∧ Rests b n s.app (idleTurn b s turn).app := by
  have ticked := ticksRests (b := b) (turn.ticks 0) parked
  exact ⟨_, le_refl _, ticked.trans (setIdleCyclesRests _ ticked.parked)⟩

theorem parkedTurn (guarded : Guarded b.sonar s) (parked : Parked s.app) (sound : Sound b s turn) (silent : Silent b s turn) :
    ∃ n, (turn.ticks 0).length ≤ n ∧ Rests b n s.app (loopTurn b s turn).app := by
  obtain ⟨n, most, idle⟩ := idleTurnRests (b := b) turn parked
  cases handled : handles b s turn with
  | false =>
    rw [loopTurnIdle handled]
    exact ⟨n, most, idle⟩
  | true =>
    have none := silentAccepts guarded sound silent handled
    obtain ⟨k, first⟩ := (restsFrame b).beforeComm turn (idleTurn b s turn) idle.parked
    have pending := (guarded.carried (beforeCommTurn b s turn)).pending
    have second := commHandleRests (b := b) pending none first.parked
    obtain ⟨l, third⟩ := (restsFrame b).afterComm turn
      (rxPackets (beforeComm b turn (idleTurn b s turn)).app) (beforeComm b turn (idleTurn b s turn)) second.parked
    rw [loopTurnHandled handled]
    exact ⟨n + (k + (0 + l)), most.trans (Nat.le_add_right _ _), idle.trans (first.trans (second.trans third))⟩

theorem driveControlKnown (b : Board F) (f : State F) : Known (control (driveControl b f)) := by
  have speed : ∀ j v (g : State F), Known (control g) → Known (control (setJointSpeed g j v)) := by
    intro j v g known
    cases j <;> exact known
  have mode : ∀ j v (g : State F), Known (control g) → Known (control (setJointMode g j v)) := by
    intro j v g known
    cases j <;> exact known
  have recognised : Known (control (recogniseCommand f)) := by
    unfold recogniseCommand
    split
    · rfl
    · rename_i same
      exact not_not.mp same
  unfold driveControl
  dsimp only
  split
  · unfold driveControllerControl
    dsimp only
    exact mode _ _ _ (mode _ _ _ (speed _ _ _ (speed _ _ _ recognised)))
  · exact recognised

/- A handled cycle ends with no drive command that is still to be taken. -/
theorem silentKnown (guarded : Guarded b.sonar s) (sound : Sound b s turn) (silent : Silent b s turn)
    (handled : handles b s turn = true) : Known (control (loopTurn b s turn).app) := by
  let idle := idleTurn b s turn
  have ticked : ∀ point (s : Main F), Known (control s.app) → Known (control (ticks b turn point s).app) := by
    intro point s known
    rw [(ticksOnly b turn point s).app.control]
    exact known
  have driven : Known (control (driveCycle b turn idle).app) := driveControlKnown b _
  have ready : Known (control (beforeComm b turn idle).app) := by
    unfold beforeComm
    refine ticked 4 _ ?_
    split
    · have aside := sonarHandleAside turn.ranges (ticks b turn 3 (driveCycle b turn idle)).app
      have sampled : Known { control (ticks b turn 3 (driveCycle b turn idle)).app with
          sonarReady := (sonarHandle turn.ranges (ticks b turn 3 (driveCycle b turn idle)).app).sonarReady } := ticked 3 _ driven
      rw [← aside.control] at sampled
      exact sampled
    · exact ticked 3 _ driven
  have none := silentAccepts guarded sound silent handled
  have here := guarded.carried (beforeCommTurn b s turn)
  obtain ⟨f, after, found⟩ := communicateFound here.tabled (sound handled).1
  have settled : control f = control (beforeComm b turn idle).app := by
    rw [found.control, silentBatch here.pending none]
    rfl
  rw [loopTurnHandled handled, (finishCycleOnly b turn _).app.control, after,
    watchdogHandleControl fun _ => found.bound here.bound, settled]
  split <;> exact ready

theorem silenceParks (b : Board F) (cycles : UInt16) (some : cycles ≠ 0) (fits : cycles < 32768) :
    RunsDown (loopTurn b) (fun s turn => Sound b s turn ∧ Silent b s turn) (handles b)
      (fun s => Guarded b.sonar s ∧ watchdogCycles s.app = cycles) (fun s => (watchdogCount s.app).toNat)
      (fun s => Parked s.app) where
  keeps := (silenceRunsDown b cycles some fits).keeps
  strike s turn inv ok handled := by
    have down := (silenceRunsDown b cycles some fits).strike s turn inv ok handled
    have later := (silenceRunsDown b cycles some fits).keeps s turn inv ok
    exact ⟨down.1, fun last => ⟨later.1.bound, down.2 last, silentKnown inv.1 ok.1 ok.2 handled⟩⟩
  rest s turn inv ok idle := by
    refine ⟨((silenceRunsDown b cycles some fits).rest s turn inv ok idle).1, fun parked => ?_⟩
    obtain ⟨n, -, rests⟩ := idleTurnRests (b := b) turn parked
    rw [loopTurnIdle idle]
    exact rests.parked

theorem parkedRun (guarded : Guarded b.sonar s) (parked : Parked s.app)
    (each : Each (loopTurn b) (fun s turn => Sound b s turn ∧ Silent b s turn) s after) :
    ∃ n, (∀ turn ∈ after, (turn.ticks 0).length ≤ n) ∧ Rests b n s.app (loop b s after).app := by
  induction after generalizing s with
  | nil => exact ⟨0, fun _ none => (nomatch none), .refl parked⟩
  | cons turn rest ih =>
    obtain ⟨⟨sound, silent⟩, others⟩ := each
    obtain ⟨n, most, first⟩ := parkedTurn guarded parked sound silent
    obtain ⟨k, all, second⟩ := ih (loopTurnGuarded guarded sound) first.parked others
    refine ⟨n + k, fun other member => ?_, first.trans second⟩
    rcases List.mem_cons.mp member with rfl | later
    · exact most.trans (Nat.le_add_right _ _)
    · exact (all other later).trans (Nat.le_add_left _ _)

/- Every bridge shows a speed of 0, whatever the registers were when the power came on. -/
structure AtRest (b : Board F) (f : State F) : Prop where
  shown : ∀ regs, ∀ i < numJoints, Shows b (onPins regs f.driverCalls) (f.bridges i) 0

/- After at least one tick. -/
theorem Rests.atRest (arduino : Arduino b) {n : Nat} {f later : State F} (rests : Rests b n f later) (some : 0 < n)
    (apart : PinsApart b later.bridges) : AtRest b later := by
  refine ⟨fun regs => ?_⟩
  obtain ⟨k, rfl⟩ : ∃ k, n = k + 1 := ⟨n - 1, by omega⟩
  have last : later.driverCalls =
      (f.driverCalls ++ (List.replicate k (restCalls b later.bridges)).flatten) ++ restCalls b later.bridges := by
    rw [rests.calls, rests.bridges, List.replicate_succ', List.flatten_append, List.append_assoc, List.flatten_singleton]
  rw [last, onPinsAppend]
  exact tickShown arduino apart _ fun _ => 0

end Runs

/- Joint 0 is given a PWM of 5, with a watchdog of two cycles. -/
def movingStart : List Turn := [tickedTurn 2 [watchdogPacket 2, jointControlPacket]]

def silentTurns : List Turn := [tickedTurn 2 [], tickedTurn 2 []]

def motorBoot : Main Rat := boot atmega2560 buffers (PacketHandler.blankHandler _) (fun _ => 0) fun _ => 0xFF

end OrazioLogger.Firmware
