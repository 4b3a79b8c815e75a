import OrazioLogger.Firmware

/-! orazio_hbridge_internal.c, orazio_joints_internal.c and orazio_joints.c. -/
namespace OrazioLogger.Firmware
open ByteMemory OrazioPackets
open OrazioClient (load16 store16)

variable {F : Type}

/-! The drivers of the pins: a call they refuse changes nothing. -/

def digioSetDirection (b : Board F) (pin : UInt8) (output : Bool) (f : State F) : Bool × State F :=
  if b.digioPin pin then (true, { f with driverCalls := f.driverCalls ++ [.setDirection pin output] }) else (false, f)

def digioSetValue (b : Board F) (pin value : UInt8) (f : State F) : Bool × State F :=
  if b.digioPin pin then (true, { f with driverCalls := f.driverCalls ++ [.setValue pin value] }) else (false, f)

def pwmEnable (b : Board F) (pin : UInt8) (enable : Bool) (f : State F) : Bool × State F :=
  if b.pwmPin pin then (true, { f with driverCalls := f.driverCalls ++ [.pwmEnable pin enable] }) else (false, f)

def pwmSetDutyCycle (b : Board F) (pin duty : UInt8) (f : State F) : Bool × State F :=
  if b.pwmPin pin then (true, { f with driverCalls := f.driverCalls ++ [.setDutyCycle pin duty] }) else (false, f)

/- Two calls of which the second is made only when the first is not refused. -/
def both (first second : State F → Bool × State F) (f : State F) : Bool × State F :=
  let (accepted, f) := first f
  if accepted then second f else (false, f)

def setBridge (f : State F) (i : Nat) (bridge : HBridge) : State F :=
  { f with bridges := Function.update f.bridges i bridge }

/- The pins of joint `i` in `joint_params`. -/
def pinAt (i k : Nat) : Nat := jointParam i + 22 + k

def pin (f : State F) (i k : Nat) : UInt8 := f.globals .jointParams (pinAt i k)

def setPin (f : State F) (i k : Nat) (c : UInt8) : State F := setByte f .jointParams (pinAt i k) c

/-! The three kinds of bridge. -/

def hBridgePwmDirFini (b : Board F) (bridge : HBridge) (f : State F) : State F :=
  let f := (pwmSetDutyCycle b bridge.pin0 0 f).2
  let f := (pwmEnable b bridge.pin0 false f).2
  let f := (digioSetValue b bridge.pin1 0 f).2
  let f := (digioSetDirection b bridge.pin1 false f).2
  if 0 ≤ signed8 bridge.pin2 then
    let f := (digioSetValue b bridge.pin2 0 f).2
    (digioSetDirection b bridge.pin2 false f).2
  else f

def hBridgeDualPwmFini (b : Board F) (bridge : HBridge) (f : State F) : State F :=
  let f := (pwmSetDutyCycle b bridge.pin0 0 f).2
  let f := (pwmEnable b bridge.pin0 false f).2
  let f := (pwmSetDutyCycle b bridge.pin1 0 f).2
  (pwmEnable b bridge.pin1 false f).2

/- The test of `enable_pin>=0` is on an unsigned byte. -/
def hBridgeHalfPwmFini (b : Board F) (bridge : HBridge) (f : State F) : State F :=
  let f := (pwmSetDutyCycle b bridge.pin0 0 f).2
  let f := (digioSetValue b bridge.pin1 0 f).2
  let f := (pwmEnable b bridge.pin0 false f).2
  (digioSetDirection b bridge.pin1 false f).2

def hBridgeFini (b : Board F) (i : Nat) (f : State F) : State F :=
  match (f.bridges i).ops with
  | none => f
  | some .pwmDir => hBridgePwmDirFini b (f.bridges i) f
  | some .dualPwm => hBridgeDualPwmFini b (f.bridges i) f
  | some .halfCyclePwm => hBridgeHalfPwmFini b (f.bridges i) f

def startBridge (b : Board F) (type : HBridgeType) (i : Nat) (f : State F) : State F :=
  let f := hBridgeFini b i f
  setBridge f i { f.bridges i with ops := some type }

/- Pin `k` is asked for. Refused, it is set back to the one the bridge had, which is `old`; otherwise `keep` puts it
in the bridge and the rest follows. -/
def claimPin (i k : Nat) (ask : UInt8 → State F → Bool × State F) (old : HBridge → UInt8)
    (keep : UInt8 → HBridge → HBridge) (rest : State F → PacketStatus × State F) (f : State F) :
    PacketStatus × State F :=
  let (accepted, f) := ask (pin f i k) f
  if accepted then rest (setBridge f i (keep (pin f i k) (f.bridges i)))
  else (.wrongPins, setPin f i k (old (f.bridges i)))

def digioOutput (b : Board F) (value pin : UInt8) : State F → Bool × State F :=
  both (digioSetDirection b pin true) (digioSetValue b pin value)

def pwmOutput (b : Board F) (pin : UInt8) : State F → Bool × State F :=
  both (pwmEnable b pin true) (pwmSetDutyCycle b pin 0)

/- Only a pin that is not negative is asked for. -/
def optionalOutput (b : Board F) (value pin : UInt8) (f : State F) : Bool × State F :=
  if 0 ≤ signed8 pin then digioOutput b value pin f else (true, f)

/- The value of an accepted brake pin is set once more. -/
def brakeOutput (b : Board F) (pin : UInt8) (f : State F) : Bool × State F :=
  let (accepted, f) := optionalOutput b 0 pin f
  (accepted, if accepted ∧ 0 ≤ signed8 pin then (digioSetValue b pin 0 f).2 else f)

def hBridgePwmDirInit (b : Board F) (i : Nat) (f : State F) : PacketStatus × State F :=
  claimPin i 1 (digioOutput b 0) HBridge.pin1 (fun c bridge => { bridge with pin1 := c })
    (claimPin i 2 (brakeOutput b) HBridge.pin2 (fun c bridge => { bridge with pin2 := c })
      (claimPin i 0 (pwmOutput b) HBridge.pin0 (fun c bridge => { bridge with pin0 := c }) fun f => (.success, f)))
    (startBridge b .pwmDir i f)

/- A refused backward pin is set back too, but not reported. -/
def claimBackward (b : Board F) (i : Nat) (f : State F) : PacketStatus × State F :=
  let (accepted, f) := pwmOutput b (pin f i 1) f
  let f := if accepted then f else setPin f i 1 (f.bridges i).pin1
  (.success, setBridge f i { f.bridges i with pin1 := pin f i 1 })

def hBridgeDualPwmInit (b : Board F) (i : Nat) (f : State F) : PacketStatus × State F :=
  claimPin i 0 (pwmOutput b) HBridge.pin0 (fun c bridge => { bridge with pin0 := c }) (claimBackward b i)
    (startBridge b .dualPwm i f)

def hBridgeHalfPwmInit (b : Board F) (i : Nat) (f : State F) : PacketStatus × State F :=
  claimPin i 0 (fun pin => both (pwmSetDutyCycle b pin 0) (pwmEnable b pin true)) HBridge.pin0
    (fun c bridge => { bridge with pin0 := c })
    (claimPin i 1 (optionalOutput b 1) HBridge.pin1 (fun c bridge => { bridge with pin1 := c }) fun f => (.success, f))
    (startBridge b .halfCyclePwm i f)

/- `return -1` for an unknown type is `UnknownType`. -/
def hBridgeInit (b : Board F) (i : Nat) (type : UInt8) (f : State F) : PacketStatus × State F :=
  if type = 0 then hBridgePwmDirInit b i f
  else if type = 1 then hBridgeDualPwmInit b i f
  else if type = 2 then hBridgeHalfPwmInit b i f
  else (.unknownType, f)

/- A negative speed is written as a duty cycle of the other pin or direction; 16 bits hold -32768 only. -/
def hBridgePwmDirSetSpeed (b : Board F) (bridge : HBridge) (speed : Int) (f : State F) : State F :=
  let pwm : Int := if 0 ≤ speed then speed else (-speed) % 65536
  let pwm := if 255 < pwm then 255 else pwm
  let f := (digioSetValue b bridge.pin1 (if 0 ≤ speed then 0 else 1) f).2
  (pwmSetDutyCycle b bridge.pin0 (UInt8.ofNat pwm.toNat) f).2

def hBridgeDualPwmSetSpeed (b : Board F) (bridge : HBridge) (speed : Int) (f : State F) : State F :=
  let speed := if 255 < speed then 255 else speed
  let speed := if speed < -255 then -255 else speed
  if 0 ≤ speed then
    let f := (pwmSetDutyCycle b bridge.pin0 (UInt8.ofNat speed.toNat) f).2
    (pwmSetDutyCycle b bridge.pin1 0 f).2
  else
    let f := (pwmSetDutyCycle b bridge.pin0 0 f).2
    (pwmSetDutyCycle b bridge.pin1 (UInt8.ofNat (-speed).toNat) f).2

def hBridgeHalfPwmSetSpeed (b : Board F) (bridge : HBridge) (speed : Int) (f : State F) : State F :=
  let speed := if 255 < speed then 255 else speed
  let speed := if speed < -255 then -255 else speed
  (pwmSetDutyCycle b bridge.pin0 (UInt8.ofNat (127 + speed.tdiv 2).toNat) f).2

def hBridgeSetSpeed (b : Board F) (i : Nat) (speed : Int) (f : State F) : PacketStatus × State F :=
  match (f.bridges i).ops with
  | none => (.genericError, f)
  | some .pwmDir => (.success, hBridgePwmDirSetSpeed b (f.bridges i) speed f)
  | some .dualPwm => (.success, hBridgeDualPwmSetSpeed b (f.bridges i) speed f)
  | some .halfCyclePwm => (.success, hBridgeHalfPwmSetSpeed b (f.bridges i) speed f)

/-! The joints. -/

def setController (f : State F) (i : Nat) (c : JointController) : State F :=
  { f with jointControllers := Function.update f.jointControllers i c }

def jointControllerInit (i : Nat) (c : JointController) : JointController :=
  { c with params := some i, status := some i, control := some i }

def jointInit (b : Board F) (i : Nat) (f : State F) : PacketStatus × State F :=
  hBridgeInit b i (f.globals .jointParams (jointParam i + 21)) (setController f i (jointControllerInit i .zeroed))

/- The loop of `Orazio_jointsInit`, from joint `i` on: it ends at the first bridge that fails. -/
def jointsInitLoop (b : Board F) (i : Nat) (f : State F) : Nat → PacketStatus × State F
  | 0 => (.success, f)
  | left + 1 =>
    let (r, f) := jointInit b i f
    if r.code < 0 then (r, f) else jointsInitLoop b (i + 1) f left

def jointsInit (b : Board F) (f : State F) : PacketStatus × State F := jointsInitLoop b 0 f numJoints

/- Its arguments and its result are int16_t. -/
def clamp (v value : Int) : Int := if v > value then value else if v < -value then toInt16 (-value) else v

/- Signed parameters of joint `i`. -/
def jointWord (f : State F) (i offset : Nat) : Int := signed16 (load16 (f.globals .jointParams) (jointParam i + offset))

/- The case `JointPID`, with an `int` that is wide enough for the sum of the products. -/
def pidStep (f : State F) (p : Nat) (speed encoderSpeed : Int) (j : JointController) : Int × JointController :=
  let desired := clamp speed (jointWord f p 17)
  let error := clamp (toInt16 (desired - encoderSpeed)) (jointWord f p 19)
  let ramp := toInt16 (encoderSpeed + error)
  let integral := clamp (toInt16 (j.errorIntegral + error)) (jointWord f p 11)
  let dError := toInt16 (error - j.previousError)
  let output := toInt16 (ramp + (jointWord f p 5 * error + jointWord f p 7 * integral + jointWord f p 9 * dError).tdiv 32)
  let output := clamp output (jointWord f p 15)
  let minPwm := jointWord f p 13
  let output := if output < minPwm ∧ output > -minPwm then 0 else output
  (desired, { j with
    error := error, rampReference := ramp, errorIntegral := integral, output := output, previousError := error })

/- `enc` is what the encoder of the joint was sampled at. -/
def jointControllerHandle (enc : UInt16) (i : Nat) (f : State F) : State F :=
  let j := f.jointControllers i
  match j.status, j.control, j.params with
  | some s, some c, some p =>
    let encoderSpeed := signed16 (enc - encoderPosition f s)
    let mode := jointMode f c
    let f := setWord f .jointStatus (jointStatusAt s + 7) (ofInt16 encoderSpeed)
    let f := setWord f .jointStatus (jointStatusAt s + 5) enc
    let f := setByte f .jointStatus (jointStatusAt s + 15) mode
    let f := setWord f .jointStatus (jointStatusAt s + 11) (ofInt16 j.output)
    if mode = jointDisabled then setController f i { j with output := 0, errorIntegral := 0 }
    else if mode = jointPwm then setController f i { j with output := jointSpeed f c }
    else if mode = jointPid then
      let (desired, j) := pidStep f p (jointSpeed f c) encoderSpeed j
      setController (setWord f .jointStatus (jointStatusAt s + 9) (ofInt16 desired)) i j
    else f
  | _, _, _ => f.faulted

/- `Orazio_jointsHandle`, with the encoders as sampled. -/
def jointsHandle (b : Board F) (encoders : Nat → UInt16) (f : State F) : State F :=
  let f := (List.range numJoints).foldl (fun f i => jointControllerHandle (encoders i) i f) f
  (List.range numJoints).foldl (fun f i => (hBridgeSetSpeed b i (f.jointControllers i).output f).2) f

/- The control record a joint controller points to. -/
def disableJoint (f : State F) (i : Nat) : State F :=
  let f := match (f.jointControllers i).control with
    | some c => setByte f .jointControl (jointControlAt c + 7) jointDisabled
    | none => f.faulted
  setController f i { f.jointControllers i with output := 0 }

def jointsDisable (f : State F) : State F := (List.range numJoints).foldl disableJoint f

end OrazioLogger.Firmware
