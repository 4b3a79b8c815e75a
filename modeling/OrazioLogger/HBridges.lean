import OrazioLogger.MainLoop
import OrazioLogger.Support.Saturation
import Mathlib.Data.List.Chain
import Mathlib.Data.List.Induction

/-! What `HBridge_init` reports of the pins it is given, and the two duty cycles of a dual PWM bridge after each write of
`PWM_setDutyCycle`. -/
namespace OrazioLogger.Firmware
open OrazioPackets Saturation

variable {F : Type}

/-! The pins of the Arduino board, as arch/atmega2560/pins.c lists them: 6, 7 and 8 are left to the sonars. -/

def pinsNum : UInt8 := 14

def atmega2560 : Board Rat := { bench with
  digioPin := fun pin => pin < pinsNum
  pwmPin := fun pin => pin < pinsNum && pin ∉ [0, 1, 6, 7, 8] }

/-! Wrong pins. -/

/- Whether the drivers accept every pin that a bridge of the type needs. -/
def requiredAccepted (b : Board F) (type pin0 pin1 pin2 : UInt8) : Bool :=
  if type = 0 then b.digioPin pin1 && optionalPin b pin2 && b.pwmPin pin0
  else if type = 1 then b.pwmPin pin0 && b.pwmPin pin1
  else if type = 2 then b.pwmPin pin0 && optionalPin b pin1
  else false

structure ReportsPins (b : Board F) (i : Nat) (type : UInt8) (f : State F) : Prop where
  success : (hBridgeInit b i type f).1 = .success ↔ requiredAccepted b type (pin f i 0) (pin f i 1) (pin f i 2) = true
  refused : requiredAccepted b type (pin f i 0) (pin f i 1) (pin f i 2) = false → (hBridgeInit b i type f).1.code < 0

/- The pin that is refused without being reported. -/
def BackwardRefused (b : Board F) (i : Nat) (type : UInt8) (f : State F) : Prop :=
  type = 1 ∧ b.pwmPin (pin f i 0) = true ∧ b.pwmPin (pin f i 1) = false

section Pins
variable {b : Board F} {i : Nat} {type : UInt8} {f : State F}

theorem bridgeAcceptedRequired (pin0 pin1 pin2 : UInt8) :
    bridgeAccepted b type pin0 pin1 pin2 = requiredAccepted b type pin0 pin1 pin2 ↔
      ¬ (type = 1 ∧ b.pwmPin pin0 = true ∧ b.pwmPin pin1 = false) := by
  unfold bridgeAccepted requiredAccepted
  by_cases one : type = 1
  · subst one
    rw [if_neg (by decide), if_pos rfl, if_neg (by decide), if_pos rfl]
    cases b.pwmPin pin0 <;> cases b.pwmPin pin1 <;> simp
  · rw [if_neg one, if_neg one]
    exact iff_of_true rfl fun refused => one refused.1

theorem hBridgeInitSuccess : (hBridgeInit b i type f).1 = .success ↔
    bridgeAccepted b type (pin f i 0) (pin f i 1) (pin f i 2) = true := by
  have ends := (hBridgeInitialised b i type f).outcome
  cases accepted : bridgeAccepted b type (pin f i 0) (pin f i 1) (pin f i 2) with
  | true =>
    rw [accepted, if_pos rfl] at ends
    exact iff_of_true ends rfl
  | false =>
    rw [accepted, if_neg Bool.false_ne_true] at ends
    refine iff_of_false ?_ Bool.false_ne_true
    rcases ends with wrong | unknown
    · rw [wrong]
      decide
    · rw [unknown]
      decide

theorem hBridgeInitRefused (refused : bridgeAccepted b type (pin f i 0) (pin f i 1) (pin f i 2) = false) :
    (hBridgeInit b i type f).1.code < 0 := by
  have ends := (hBridgeInitialised b i type f).outcome
  rw [refused, if_neg Bool.false_ne_true] at ends
  rcases ends with wrong | unknown
  · rw [wrong]
    decide
  · rw [unknown]
    decide

theorem wrongPinsReported (b : Board F) (i : Nat) (type : UInt8) (f : State F) :
    ReportsPins b i type f ↔ ¬ BackwardRefused b i type f := by
  rw [BackwardRefused, ← bridgeAcceptedRequired _ _ (pin f i 2)]
  constructor
  · intro reports
    rw [Bool.eq_iff_iff, ← hBridgeInitSuccess, reports.success]
  · intro same
    refine ⟨?_, fun refused => ?_⟩
    · rw [hBridgeInitSuccess, same]
    · exact hBridgeInitRefused (same.trans refused)

end Pins

/- A dual bridge on pins 2 and 6 of the Arduino board. -/
def backwardOnTimer4 : State Rat := setPin (setPin (powerOn atmega2560 fun _ => 0xFF) 0 0 2) 0 1 6

theorem backwardPinUnreported : ¬ ReportsPins atmega2560 0 1 backwardOnTimer4 := by
  intro reports
  have success : (hBridgeInit atmega2560 0 1 backwardOnTimer4).1 = .success := by decide +kernel
  exact absurd (reports.success.mp success) (by decide +kernel)

/-! Duty cycles. Every PWM pin has a compare register of its own, which holds `255-duty_cycle`. -/

def dutyStep (pin duty : UInt8) : DriverCall → UInt8
  | .setDutyCycle written d => if written = pin then d else duty
  | .pwmEnable written _ => if written = pin then 255 else duty
  | _ => duty

def dutyAfter (pin : UInt8) (calls : List DriverCall) : UInt8 := calls.foldl (dutyStep pin) 255

theorem dutyAppend (pin : UInt8) (calls more : List DriverCall) :
    dutyAfter pin (calls ++ more) = more.foldl (dutyStep pin) (dutyAfter pin calls) := by
  rw [dutyAfter, List.foldl_append, dutyAfter]

/- The speeds are given to `HBridge_setSpeed` one after the other. -/
def driven (b : Board F) (i : Nat) (f : State F) (speeds : List Int) : State F :=
  speeds.foldl (fun f speed => (hBridgeSetSpeed b i speed f).2) f

theorem drivenSnoc (b : Board F) (i : Nat) (f : State F) (past : List Int) (speed : Int) :
    driven b i f (past ++ [speed]) = (hBridgeSetSpeed b i speed (driven b i f past)).2 := by
  rw [driven, List.foldl_append]
  rfl

/- `forward` and `backward` after every write that the speeds cause in `f`, and after every call. -/
structure CrossFree (b : Board F) (i : Nat) (forward backward : UInt8) (f : State F) (speeds : List Int) : Prop where
  writes : ∀ n, f.driverCalls.length ≤ n →
    dutyAfter forward ((driven b i f speeds).driverCalls.take n) = 0 ∨
      dutyAfter backward ((driven b i f speeds).driverCalls.take n) = 0
  calls : ∀ past speed, past ++ [speed] <+: speeds →
    ((dutyAfter forward (driven b i f (past ++ [speed])).driverCalls).toNat : Int) -
      (dutyAfter backward (driven b i f (past ++ [speed])).driverCalls).toNat = saturate 255 speed

/- A speed that turns the motor from backwards to forwards at once. -/
def Reverses (speed next : Int) : Prop := speed < 0 ∧ 0 < next

instance (speed next : Int) : Decidable (Reverses speed next) := inferInstanceAs (Decidable (_ ∧ _))

def forwardDuty (speed : Int) : UInt8 := UInt8.ofNat (saturate 255 speed).toNat
def backwardDuty (speed : Int) : UInt8 := UInt8.ofNat (-saturate 255 speed).toNat

theorem dutyBounds (speed : Int) : -255 ≤ saturate 255 speed ∧ saturate 255 speed ≤ 255 :=
  abs_le.mp (saturateAbs (by decide) speed)

theorem forwardDutyNat (speed : Int) : (forwardDuty speed).toNat = (saturate 255 speed).toNat := by
  have bounds := dutyBounds speed
  rw [forwardDuty, UInt8.toNat_ofNat']
  exact Nat.mod_eq_of_lt (by omega)

theorem backwardDutyNat (speed : Int) : (backwardDuty speed).toNat = (-saturate 255 speed).toNat := by
  have bounds := dutyBounds speed
  rw [backwardDuty, UInt8.toNat_ofNat']
  exact Nat.mod_eq_of_lt (by omega)

theorem forwardDutyZero (speed : Int) : forwardDuty speed = 0 ↔ speed ≤ 0 := by
  rw [← UInt8.toNat_inj, forwardDutyNat, saturate]
  change _ = 0 ↔ _
  omega

theorem backwardDutyZero (speed : Int) : backwardDuty speed = 0 ↔ 0 ≤ speed := by
  rw [← UInt8.toNat_inj, backwardDutyNat, saturate]
  change _ = 0 ↔ _
  omega

theorem dutyDifference (speed : Int) :
    ((forwardDuty speed).toNat : Int) - (backwardDuty speed).toNat = saturate 255 speed := by
  rw [forwardDutyNat, backwardDutyNat]
  omega

/- A bridge as a successful initialisation leaves it when both pins are accepted. -/
structure Dual (b : Board F) (i : Nat) (forward backward : UInt8) (f : State F) : Prop where
  ops : (f.bridges i).ops = some .dualPwm
  pin0 : (f.bridges i).pin0 = forward
  pin1 : (f.bridges i).pin1 = backward
  forwardPin : b.pwmPin forward = true
  backwardPin : b.pwmPin backward = true
  distinct : forward ≠ backward

section Dual
variable {b : Board F} {i : Nat} {forward backward : UInt8} {f : State F}

def dualWrites (forward backward : UInt8) (speed : Int) : List DriverCall :=
  [.setDutyCycle forward (forwardDuty speed), .setDutyCycle backward (backwardDuty speed)]

theorem Dual.setSpeed (dual : Dual b i forward backward f) (speed : Int) : (hBridgeSetSpeed b i speed f).2 =
    { f with driverCalls := f.driverCalls ++ dualWrites forward backward speed } := by
  have limit : (if (if 255 < speed then 255 else speed) < -255 then -255 else if 255 < speed then 255 else speed) =
      saturate 255 speed := by
    unfold saturate
    omega
  have calls : speedCalls b (f.bridges i) speed = dualWrites forward backward speed := by
    unfold speedCalls
    rw [dual.ops]
    dsimp only
    rw [limit, dual.pin0, dual.pin1, dual.forwardPin, dual.backwardPin]
    rfl
  rw [hBridgeSetSpeedCalls, calls, State.called]

theorem Dual.driven (dual : Dual b i forward backward f) (speeds : List Int) :
    Dual b i forward backward (driven b i f speeds) ∧
      (Firmware.driven b i f speeds).driverCalls = f.driverCalls ++ speeds.flatMap (dualWrites forward backward) := by
  induction speeds using List.reverseRecOn with
  | nil => exact ⟨dual, (List.append_nil _).symm⟩
  | append_singleton past speed ih =>
    obtain ⟨still, calls⟩ := ih
    rw [drivenSnoc, still.setSpeed, calls, List.flatMap_append, List.append_assoc, List.flatMap_singleton]
    exact ⟨⟨still.ops, still.pin0, still.pin1, still.forwardPin, still.backwardPin, still.distinct⟩, rfl⟩

/- The two writes of one call, one after the other. -/
theorem Dual.dutyAfterCall (dual : Dual b i forward backward f) (calls : List DriverCall) (speed : Int) :
    dutyAfter forward (calls ++ dualWrites forward backward speed) = forwardDuty speed ∧
      dutyAfter backward (calls ++ dualWrites forward backward speed) = backwardDuty speed := by
  simp only [dutyAppend, dualWrites, List.foldl_cons, List.foldl_nil, dutyStep, if_true, dual.distinct,
    dual.distinct.symm, if_false, and_self]

theorem Dual.dutyBetween (dual : Dual b i forward backward f) (calls : List DriverCall) (speed : Int) :
    dutyAfter forward (calls ++ [.setDutyCycle forward (forwardDuty speed)]) = forwardDuty speed ∧
      dutyAfter backward (calls ++ [.setDutyCycle forward (forwardDuty speed)]) = dutyAfter backward calls := by
  simp only [dutyAppend, List.foldl_cons, List.foldl_nil, dutyStep, if_true, dual.distinct, if_false, and_self]

/- What the backward pin was left at. -/
theorem Dual.backwardLeft (dual : Dual b i forward backward f) (idle : dutyAfter backward f.driverCalls = 0)
    (past : List Int) : dutyAfter backward (Firmware.driven b i f past).driverCalls = 0 ↔
      ∀ speed ∈ past.getLast?, 0 ≤ speed := by
  induction past using List.reverseRecOn with
  | nil => exact iff_of_true idle (by simp)
  | append_singleton past speed _ =>
    obtain ⟨still, -⟩ := dual.driven past
    rw [drivenSnoc, still.setSpeed, (still.dutyAfterCall _ speed).2, backwardDutyZero]
    simp

/- One of the two pins is idle after each write from `start` on. -/
def OneIdle (forward backward : UInt8) (start : Nat) (calls : List DriverCall) : Prop :=
  ∀ n, start ≤ n → dutyAfter forward (calls.take n) = 0 ∨ dutyAfter backward (calls.take n) = 0

/- The writes of one more call: what counts is the backward pin when the forward one is written. -/
theorem Dual.oneIdleSnoc (dual : Dual b i forward backward f) {start : Nat} {old : List DriverCall}
    (begun : start ≤ old.length) (speed : Int) :
    OneIdle forward backward start (old ++ dualWrites forward backward speed) ↔
      OneIdle forward backward start old ∧ (speed ≤ 0 ∨ dutyAfter backward old = 0) := by
  constructor
  · intro idle
    refine ⟨fun n from_ => ?_, ?_⟩
    · rcases Nat.le_total n old.length with short | long
      · have here := idle n from_
        rwa [List.take_append_of_le_length short] at here
      · have here := idle old.length begun
        rwa [List.take_append_of_le_length (le_refl _), List.take_length, ← List.take_of_length_le long] at here
    · have here := idle (old.length + 1) (by omega)
      rw [List.take_length_add_append] at here
      change dutyAfter forward (old ++ [_]) = 0 ∨ dutyAfter backward (old ++ [_]) = 0 at here
      rwa [(dual.dutyBetween old speed).1, (dual.dutyBetween old speed).2, forwardDutyZero] at here
  · rintro ⟨idle, between⟩ n from_
    rcases Nat.le_total n old.length with short | long
    · rw [List.take_append_of_le_length short]
      exact idle n from_
    obtain ⟨k, rfl⟩ := Nat.exists_eq_add_of_le long
    rw [List.take_length_add_append]
    match k with
    | 0 =>
      rw [List.take_zero, List.append_nil, ← List.take_length (l := old)]
      exact idle _ begun
    | 1 =>
      change dutyAfter forward (old ++ [_]) = 0 ∨ dutyAfter backward (old ++ [_]) = 0
      rwa [(dual.dutyBetween old speed).1, (dual.dutyBetween old speed).2, forwardDutyZero]
    | k + 2 =>
      rw [List.take_of_length_le (show (dualWrites forward backward speed).length ≤ k + 2 from Nat.le_add_left 2 k),
        (dual.dutyAfterCall old speed).1, (dual.dutyAfterCall old speed).2, forwardDutyZero, backwardDutyZero]
      exact Int.le_total speed 0

theorem Dual.crossFreeSnoc (dual : Dual b i forward backward f) (past : List Int) (speed : Int) :
    CrossFree b i forward backward f (past ++ [speed]) ↔ CrossFree b i forward backward f past ∧
      (speed ≤ 0 ∨ dutyAfter backward (Firmware.driven b i f past).driverCalls = 0) := by
  obtain ⟨still, before⟩ := dual.driven past
  have later : (Firmware.driven b i f (past ++ [speed])).driverCalls =
      (Firmware.driven b i f past).driverCalls ++ dualWrites forward backward speed := by
    rw [drivenSnoc, still.setSpeed]
  have begun : f.driverCalls.length ≤ (Firmware.driven b i f past).driverCalls.length := by
    rw [before, List.length_append]
    omega
  have idle := still.oneIdleSnoc begun speed
  rw [← later] at idle
  constructor
  · rintro ⟨writes, differences⟩
    obtain ⟨earlier, between⟩ := idle.mp writes
    exact ⟨⟨earlier, fun earlier s done => differences earlier s (done.trans (List.prefix_append _ _))⟩, between⟩
  · rintro ⟨⟨writes, differences⟩, between⟩
    refine ⟨idle.mpr ⟨writes, between⟩, fun earlier s done => ?_⟩
    rcases List.prefix_concat_iff.mp done with last | earlierCall
    · obtain ⟨rfl, same⟩ := List.append_inj' last rfl
      cases same
      rw [later, (still.dutyAfterCall _ speed).1, (still.dutyAfterCall _ speed).2]
      exact dutyDifference speed
    · exact differences earlier s earlierCall

theorem Dual.crossFree (dual : Dual b i forward backward f) (idle : dutyAfter forward f.driverCalls = 0 ∧
    dutyAfter backward f.driverCalls = 0) (speeds : List Int) :
    CrossFree b i forward backward f speeds ↔ speeds.IsChain fun speed next => ¬ Reverses speed next := by
  induction speeds using List.reverseRecOn with
  | nil =>
    refine iff_of_true ⟨fun n from_ => Or.inl ?_, fun past speed done => ?_⟩ .nil
    · rw [List.take_of_length_le (by exact from_)]
      exact idle.1
    · exact absurd (List.prefix_nil.mp done) (by simp)
  | append_singleton past speed ih =>
    rw [dual.crossFreeSnoc, ih, dual.backwardLeft idle.2, List.isChain_append]
    simp only [List.isChain_singleton, true_and, List.head?_cons, Option.mem_some_iff, forall_eq', Reverses, not_and,
      not_lt]
    refine and_congr_right fun _ => ⟨?_, fun follows => ?_⟩
    · rintro (still | forwards) last mem backwards
      · exact still
      · exact absurd backwards (not_lt.mpr (forwards last mem))
    · rcases le_or_gt speed 0 with still | turning
      · exact Or.inl still
      · exact Or.inr fun last mem => not_lt.mp fun backwards => absurd (follows last mem backwards) (not_le.mpr turning)

end Dual

/-! A dual bridge after its initialisation. -/

section Init
variable {b : Board F} {i : Nat} {f : State F}

/- Both pins are enabled and set to 0, the backward one last. -/
theorem dualPwmInitialised (forwardPin : b.pwmPin (pin f i 0) = true) (backwardPin : b.pwmPin (pin f i 1) = true) :
    ∃ calls, (hBridgeInit b i 1 f).2.driverCalls = calls ++
        [.pwmEnable (pin f i 0) true, .setDutyCycle (pin f i 0) 0] ++
        [.pwmEnable (pin f i 1) true, .setDutyCycle (pin f i 1) 0] ∧
      ∃ pin2, (hBridgeInit b i 1 f).2.bridges i = ⟨some .dualPwm, pin f i 0, pin f i 1, pin2⟩ := by
  rw [hBridgeInitOutcome, appliedCalls, appliedBridge]
  have outcome : bridgeOutcome b (f.bridges i) (pin f i 0) (pin f i 1) (pin f i 2) 1 =
      dualPwmOutcome b (f.bridges i) (pin f i 0) (pin f i 1) := rfl
  rw [outcome, dualPwmOutcome, if_pos forwardPin, if_pos backwardPin, forwardPin]
  refine ⟨f.driverCalls ++ finiCalls b (f.bridges i), ?_, (f.bridges i).pin2, rfl⟩
  simp only [grantedAll, List.append_assoc]

theorem dualPwmStarted (forwardPin : b.pwmPin (pin f i 0) = true) (backwardPin : b.pwmPin (pin f i 1) = true)
    (distinct : pin f i 0 ≠ pin f i 1) :
    Dual b i (pin f i 0) (pin f i 1) (hBridgeInit b i 1 f).2 ∧
      dutyAfter (pin f i 0) (hBridgeInit b i 1 f).2.driverCalls = 0 ∧
      dutyAfter (pin f i 1) (hBridgeInit b i 1 f).2.driverCalls = 0 := by
  obtain ⟨calls, written, pin2, bridge⟩ := dualPwmInitialised forwardPin backwardPin
  refine ⟨⟨by rw [bridge], by rw [bridge], by rw [bridge], forwardPin, backwardPin, distinct⟩, ?_, ?_⟩
  · rw [written]
    simp only [dutyAppend, List.foldl_cons, List.foldl_nil, dutyStep, distinct.symm, if_true, if_false]
  · rw [written]
    simp only [dutyAppend, List.foldl_cons, List.foldl_nil, dutyStep, distinct, if_true, if_false]

theorem noCrossDrive (success : (hBridgeInit b i 1 f).1 = .success) (distinct : pin f i 0 ≠ pin f i 1)
    (backwardPin : b.pwmPin (pin f i 1) = true) (speeds : List Int) :
    CrossFree b i (pin f i 0) (pin f i 1) (hBridgeInit b i 1 f).2 speeds ↔
      speeds.IsChain fun speed next => ¬ Reverses speed next := by
  have forwardPin : b.pwmPin (pin f i 0) = true := hBridgeInitSuccess.mp success
  obtain ⟨dual, idle⟩ := dualPwmStarted forwardPin backwardPin distinct
  exact dual.crossFree idle speeds

end Init

theorem slowingCrossFree : CrossFree atmega2560 0 2 3 (hBridgeInit atmega2560 0 1 (powerOn atmega2560 fun _ => 0xFF)).2
    [-255, -1, 0, 300, -300] ↔ [-255, -1, 0, 300, -300].IsChain fun speed next => ¬ Reverses speed next :=
  noCrossDrive (f := powerOn atmega2560 fun _ => 0xFF) (by decide +kernel) (by decide +kernel) (by decide +kernel) _

/- Both pins are driven after the first write of the second call. -/
theorem reversingCrosses : (hBridgeInit atmega2560 0 1 (powerOn atmega2560 fun _ => 0xFF)).1 = .success ∧
    ¬ CrossFree atmega2560 0 2 3 (hBridgeInit atmega2560 0 1 (powerOn atmega2560 fun _ => 0xFF)).2 [-200, 200] := by
  refine ⟨by decide +kernel, fun free => ?_⟩
  exact absurd (free.writes 7 (by decide +kernel)) (by decide +kernel)

end OrazioLogger.Firmware
