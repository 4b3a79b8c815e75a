import OrazioLogger.Support.Registers

/-! pins.c, digio.c and pwm.c of arch/atmega2560 and arch/dspic: fourteen pins that share the registers of their ports and
timers. Every pin goes by the calls that name it, as if it had registers of its own. -/
namespace OrazioLogger.Pins
open Registers

/-! The table of the pins. -/

/- The registers of a PWM channel; `tcc_register` and `oc_register` are null together. -/
structure Channel (ρ : Type) (w : Nat) where
  tccRegister : ρ
  ocRegister : ρ
  comMask : BitVec w

structure Pin (ρ : Type) (w : Nat) where
  inRegister : ρ
  outRegister : ρ
  dirRegister : ρ
  bit : Nat
  pwm : Option (Channel ρ w)

/- Where two chips differ: the bit that makes a pin an output, and how a duty cycle is written. The entry of a pin whose port
registers are null is `none`. -/
structure Chip (ρ : Type) (w : Nat) where
  pins : List (Option (Pin ρ w))
  outputBit : Bool
  compare : UInt8 → BitVec w
  duty : BitVec w → Int

/- The entry of a pin that is not out of bound. -/
def Chip.pin {ρ : Type} {w : Nat} (c : Chip ρ w) (pin : UInt8) : Option (Pin ρ w) := (c.pins[pin.toNat]?).join

def Pin.direction {ρ : Type} {w : Nat} (m : Pin ρ w) : Field ρ w := .bit m.dirRegister m.bit
def Pin.output {ρ : Type} {w : Nat} (m : Pin ρ w) : Field ρ w := .bit m.outRegister m.bit
def Pin.input {ρ : Type} {w : Nat} (m : Pin ρ w) : Field ρ w := .bit m.inRegister m.bit
def Channel.com {ρ : Type} {w : Nat} (t : Channel ρ w) : Field ρ w := ⟨t.tccRegister, t.comMask⟩

/-! The drivers. Each returns its result with the registers that it leaves. -/

section Drivers
variable {ρ : Type} [DecidableEq ρ] {w : Nat} (c : Chip ρ w) (pin : UInt8) (regs : File ρ w)

def writeBit (x : Field ρ w) (on : Bool) : File ρ w := if on then x.set regs else x.clear regs

def readBit (r : ρ) (bit : Nat) : Int := ((regs r >>> bit) &&& 1#w).toNat

def digioSetDirection (dir : Bool) : Int × File ρ w :=
  match c.pin pin with
  | none => (-1, regs)
  | some m => (0, writeBit regs m.direction (dir == c.outputBit))

def digioGetDirection : Int × File ρ w :=
  match c.pin pin with
  | none => (-1, regs)
  | some m => (if c.outputBit then readBit regs m.dirRegister m.bit else 1 - readBit regs m.dirRegister m.bit, regs)

def digioSetValue (value : UInt8) : Int × File ρ w :=
  match c.pin pin with
  | none => (-1, regs)
  | some m => (0, writeBit regs m.output (value != 0))

def digioGetValue : Int × File ρ w :=
  match c.pin pin with
  | none => (-1, regs)
  | some m => (readBit regs m.inRegister m.bit, regs)

/- The pin with its channel; without one the answer is `PWMChannelOutOfBound`. -/
def Chip.channel : Option (Pin ρ w × Channel ρ w) := do
  let m ← c.pin pin
  let t ← m.pwm
  some (m, t)

def pwmIsEnabled : Int × File ρ w :=
  match c.channel pin with
  | none => (-1, regs)
  | some (_, t) => (if regs t.tccRegister &&& t.comMask = 0#w then 0 else 1, regs)

/- Both chips set the bit of the direction register here, whatever it means to them. -/
def pwmEnable (enable : Bool) : Int × File ρ w :=
  match c.channel pin with
  | none => (-1, regs)
  | some (m, t) =>
    let regs := assign t.ocRegister 0#w regs
    let regs := writeBit regs t.com enable
    (0, writeBit regs m.direction enable)

def pwmGetDutyCycle : Int × File ρ w :=
  match c.channel pin with
  | none => (-1, regs)
  | some (_, t) => (c.duty (regs t.ocRegister), regs)

def pwmSetDutyCycle (duty : UInt8) : Int × File ρ w :=
  match c.channel pin with
  | none => (-1, regs)
  | some (_, t) => (0, assign t.ocRegister (c.compare duty) regs)

end Drivers

inductive Call where
  | setDirection (dir : Bool)
  | getDirection
  | setValue (value : UInt8)
  | getValue
  | isEnabled
  | enable (enable : Bool)
  | getDutyCycle
  | setDutyCycle (duty : UInt8)
  deriving DecidableEq, Repr

def perform {ρ : Type} [DecidableEq ρ] {w : Nat} (c : Chip ρ w) (pin : UInt8) (regs : File ρ w) : Call → Int × File ρ w
  | .setDirection dir => digioSetDirection c pin regs dir
  | .getDirection => digioGetDirection c pin regs
  | .setValue value => digioSetValue c pin regs value
  | .getValue => digioGetValue c pin regs
  | .isEnabled => pwmIsEnabled c pin regs
  | .enable enable => pwmEnable c pin regs enable
  | .getDutyCycle => pwmGetDutyCycle c pin regs
  | .setDutyCycle duty => pwmSetDutyCycle c pin regs duty

/- The levels at the pins change as they like, and the input registers with them. -/
def sample {ρ : Type} [DecidableEq ρ] {w : Nat} (c : Chip ρ w) (levels regs : File ρ w) : File ρ w := fun r =>
  if c.pins.any (fun entry => entry.any fun m => m.inRegister = r) then levels r else regs r

inductive Event (ρ : Type) (w : Nat) where
  | call (pin : UInt8) (call : Call)
  | sampled (levels : File ρ w)

section Run
variable {ρ : Type} [DecidableEq ρ] {w : Nat} (c : Chip ρ w)

def next (regs : File ρ w) : Event ρ w → File ρ w
  | .call pin call => (perform c pin regs call).2
  | .sampled levels => sample c levels regs

def run (regs : File ρ w) (events : List (Event ρ w)) : File ρ w := events.foldl (next c) regs

/- What the calls that name the pin return. -/
def answers (pin : UInt8) (regs : File ρ w) : List (Event ρ w) → List Int
  | [] => []
  | .call named call :: rest =>
    (if named = pin then [(perform c named regs call).1] else []) ++ answers pin (perform c named regs call).2 rest
  | .sampled levels :: rest => answers pin (sample c levels regs) rest

end Run

/-! The two chips. -/

inductive AvrRegister where
  | pinB | portB | ddrB | pinE | portE | ddrE | pinG | portG | ddrG | pinH | portH | ddrH
  | tccr0A | tccr1A | tccr2A | tccr3A
  | ocr0B | ocr1AL | ocr1BL | ocr1CL | ocr2A | ocr2B | ocr3AL | ocr3BL | ocr3CL
  deriving DecidableEq, Repr

def comA : BitVec 8 := 1#8 <<< 6 ||| 1#8 <<< 7
def comB : BitVec 8 := 1#8 <<< 4 ||| 1#8 <<< 5
def comC : BitVec 8 := 1#8 <<< 2 ||| 1#8 <<< 3

def portB (bit : Nat) (pwm : Option (Channel AvrRegister 8)) : Option (Pin AvrRegister 8) := some ⟨.pinB, .portB, .ddrB, bit, pwm⟩
def portE (bit : Nat) (pwm : Option (Channel AvrRegister 8)) : Option (Pin AvrRegister 8) := some ⟨.pinE, .portE, .ddrE, bit, pwm⟩
def portG (bit : Nat) (pwm : Option (Channel AvrRegister 8)) : Option (Pin AvrRegister 8) := some ⟨.pinG, .portG, .ddrG, bit, pwm⟩
def portH (bit : Nat) (pwm : Option (Channel AvrRegister 8)) : Option (Pin AvrRegister 8) := some ⟨.pinH, .portH, .ddrH, bit, pwm⟩

def atmega2560 : Chip AvrRegister 8 where
  pins := [portE 0 none, portE 1 none, portE 4 (some ⟨.tccr3A, .ocr3BL, comB⟩), portE 5 (some ⟨.tccr3A, .ocr3CL, comC⟩),
    portG 5 (some ⟨.tccr0A, .ocr0B, comB⟩), portE 3 (some ⟨.tccr3A, .ocr3AL, comA⟩), portH 3 none, portH 4 none, portH 5 none,
    portH 6 (some ⟨.tccr2A, .ocr2B, comB⟩), portB 4 (some ⟨.tccr2A, .ocr2A, comA⟩), portB 5 (some ⟨.tccr1A, .ocr1AL, comA⟩),
    portB 6 (some ⟨.tccr1A, .ocr1BL, comB⟩), portB 7 (some ⟨.tccr1A, .ocr1CL, comC⟩)]
  outputBit := true
  compare duty := BitVec.ofNat 8 (255 - duty.toNat)
  duty oc := 255 - oc.toNat

inductive DspicRegister where
  | portB | latB | trisB | pwm1Con1 | p1Dc1 | p1Dc2
  deriving DecidableEq, Repr

def rb (bit : Nat) (pwm : Option (Channel DspicRegister 16)) : Option (Pin DspicRegister 16) :=
  some ⟨.portB, .latB, .trisB, bit, pwm⟩

def dspic : Chip DspicRegister 16 where
  pins := [rb 0 none, rb 1 none, rb 15 none, rb 14 (some ⟨.pwm1Con1, .p1Dc1, 1#16 <<< 4⟩), rb 13 none,
    rb 12 (some ⟨.pwm1Con1, .p1Dc2, 1#16 <<< 5⟩), none, none, rb 9 none, none, none, rb 4 none, rb 3 none, rb 2 none]
  outputBit := false
  compare duty := BitVec.ofNat 16 duty.toNat <<< 3
  duty oc := (oc >>> 3).toNat

/- `DigIO_init`: the direction that it asks for is 0 on the one chip and 1 on the other. -/
def digioInit {ρ : Type} [DecidableEq ρ] {w : Nat} (c : Chip ρ w) (dir : Bool) (regs : File ρ w) : File ρ w :=
  (List.range c.pins.length).foldl (fun regs i =>
    (digioSetValue c (UInt8.ofNat i) (digioSetDirection c (UInt8.ofNat i) regs dir).2 1).2) regs

/-! What is seen of one pin. -/

structure Seen where
  output : Bool
  latch : Bool
  level : Bool
  enabled : Bool
  duty : Int
  deriving DecidableEq, Repr

inductive Kind where
  | missing | digital | pwm
  deriving DecidableEq, Repr

/- A pin with registers of its own. `inverted` is the chip on which enabling the channel makes the pin an input, `idle` the
duty cycle of a compare register that is 0. -/
structure Single where
  kind : Kind
  inverted : Bool
  idle : Int

/- What the driver answers if the pin can do what it is asked for. -/
def Single.answer (seen : Seen) : Call → Int
  | .setDirection _ | .setValue _ | .enable _ | .setDutyCycle _ => 0
  | .getDirection => seen.output.toNat
  | .getValue => seen.level.toNat
  | .isEnabled => seen.enabled.toNat
  | .getDutyCycle => seen.duty

def Single.change (one : Single) (seen : Seen) : Call → Seen
  | .setDirection dir => { seen with output := dir }
  | .setValue value => { seen with latch := value != 0 }
  | .enable enable => { seen with output := enable != one.inverted, enabled := enable, duty := one.idle }
  | .setDutyCycle duty => { seen with duty := duty.toNat }
  | .getDirection | .getValue | .isEnabled | .getDutyCycle => seen

def Call.needs : Call → List Kind
  | .setDirection _ | .getDirection | .setValue _ | .getValue => [.digital, .pwm]
  | .isEnabled | .enable _ | .getDutyCycle | .setDutyCycle _ => [.pwm]

def Single.step (one : Single) (seen : Seen) (call : Call) : Int × Seen :=
  if one.kind ∈ call.needs then (Single.answer seen call, one.change seen call) else (-1, seen)

/- What concerns one pin. -/
inductive Own where
  | call (call : Call)
  | level (high : Bool)

def Single.run (one : Single) (seen : Seen) : List Own → List Int × Seen
  | [] => ([], seen)
  | .call call :: rest =>
    let (answer, seen) := one.step seen call
    let (answers, seen) := Single.run one seen rest
    (answer :: answers, seen)
  | .level high :: rest => Single.run one { seen with level := high } rest

section Seen
variable {ρ : Type} {w : Nat}

def Pin.written (m : Pin ρ w) : List (Field ρ w) :=
  [m.direction, m.output] ++ (match m.pwm with
    | none => []
    | some t => [t.com, .whole t.ocRegister])

def Pin.fields (m : Pin ρ w) : List (Field ρ w) := m.input :: m.written

def isSet (x : Field ρ w) (regs : File ρ w) : Bool := x.read regs ≠ 0#w

def Pin.seen (m : Pin ρ w) (c : Chip ρ w) (regs : File ρ w) : Seen where
  output := isSet m.direction regs == c.outputBit
  latch := isSet m.output regs
  level := isSet m.input regs
  enabled := m.pwm.any fun t => isSet t.com regs
  duty := m.pwm.elim 0 fun t => c.duty ((Field.whole t.ocRegister).read regs)

def Chip.seen (c : Chip ρ w) (regs : File ρ w) (pin : UInt8) : Seen :=
  (c.pin pin).elim ⟨false, false, false, false, 0⟩ fun m => m.seen c regs

def Chip.single (c : Chip ρ w) (pin : UInt8) : Single where
  kind := (c.pin pin).elim .missing fun m => if m.pwm.isSome then .pwm else .digital
  inverted := !c.outputBit
  idle := c.duty 0#w

def Chip.own (c : Chip ρ w) (pin : UInt8) : Event ρ w → List Own
  | .call named call => if named = pin then [.call call] else []
  | .sampled levels => (c.pin pin).elim [] fun m => [.level (isSet m.input levels)]

/- No bit belongs to two pins or to two roles of one pin, and no input register is written. -/
structure Chip.Laid (c : Chip ρ w) : Prop where
  inputs : ∀ entry ∈ c.pins, ∀ m ∈ entry, ∀ other ∈ c.pins, ∀ n ∈ other, ∀ y ∈ n.written, y.register ≠ m.inRegister
  apart : ∀ i j : Fin c.pins.length, i ≠ j → ∀ m ∈ c.pins[i], ∀ n ∈ c.pins[j], ∀ x ∈ m.fields, ∀ y ∈ n.written, x.Apart y
  own : ∀ entry ∈ c.pins, ∀ m ∈ entry, m.fields.Pairwise fun x y => x.Apart y ∧ y.Apart x
  inside : ∀ entry ∈ c.pins, ∀ m ∈ entry, m.bit < w
  masked : ∀ entry ∈ c.pins, ∀ m ∈ entry, ∀ t ∈ m.pwm, t.comMask ≠ 0#w
  duties : ∀ duty : UInt8, c.duty (c.compare duty) = duty.toNat

end Seen

theorem atmega2560Laid : atmega2560.Laid where
  inputs := by decide +kernel
  apart := by decide +kernel
  own := by decide +kernel
  inside := by decide +kernel
  masked := by decide +kernel
  duties duty := by
    change (255 - ((BitVec.ofNat 8 (255 - duty.toNat)).toNat : Nat) : Int) = _
    rw [BitVec.toNat_ofNat]
    have low := duty.toNat_lt
    omega

theorem dspicLaid : dspic.Laid where
  inputs := by decide +kernel
  apart := by decide +kernel
  own := by decide +kernel
  inside := by decide +kernel
  masked := by decide +kernel
  duties duty := by
    change (((BitVec.ofNat 16 duty.toNat <<< 3 >>> 3).toNat : Nat) : Int) = _
    have low := duty.toNat_lt
    rw [BitVec.toNat_ushiftRight, BitVec.toNat_shiftLeft, BitVec.toNat_ofNat, Nat.shiftLeft_eq, Nat.shiftRight_eq_div_pow]
    omega

section Table
variable {ρ : Type} {w : Nat} {c : Chip ρ w} {m : Pin ρ w} {regs later : File ρ w} {pin other : UInt8}

theorem Chip.entry (found : c.pin pin = some m) : ∃ inside : pin.toNat < c.pins.length, c.pins[pin.toNat] = some m :=
  List.getElem?_eq_some_iff.mp (Option.join_eq_some_iff.mp found)

theorem Chip.member (found : c.pin pin = some m) : some m ∈ c.pins := by
  obtain ⟨inside, here⟩ := Chip.entry found
  rw [← here]
  exact List.getElem_mem inside

/- A write of another pin. -/
theorem Chip.Laid.others (laid : c.Laid) {n : Pin ρ w} (found : c.pin pin = some m) (there : c.pin other = some n)
    (different : other ≠ pin) : ∀ x ∈ m.fields, ∀ y ∈ n.written, x.Apart y := by
  obtain ⟨inside, here⟩ := Chip.entry found
  obtain ⟨insideOther, hereOther⟩ := Chip.entry there
  refine laid.apart ⟨pin.toNat, inside⟩ ⟨other.toNat, insideOther⟩ (fun same => different ?_) m here n hereOther
  exact UInt8.toNat_inj.mp (Fin.mk.inj same).symm

theorem Chip.channelFound {t : Channel ρ w} : c.channel pin = some (m, t) ↔ c.pin pin = some m ∧ m.pwm = some t := by
  unfold Chip.channel
  cases c.pin pin with
  | none => simp
  | some n =>
    cases channel : n.pwm with
    | none => simp [channel]; grind
    | some u => simp [channel]; grind

/- What a call may write. -/
def Chip.writes (c : Chip ρ w) (pin : UInt8) : List (Field ρ w) := (c.pin pin).elim [] Pin.written

theorem directionWritten (m : Pin ρ w) : m.direction ∈ m.written := List.mem_append_left _ List.mem_cons_self

theorem outputWritten (m : Pin ρ w) : m.output ∈ m.written := List.mem_append_left _ (List.mem_cons_of_mem _ List.mem_cons_self)

theorem comWritten {t : Channel ρ w} (channel : m.pwm = some t) : t.com ∈ m.written := by
  unfold Pin.written
  rw [channel]
  exact List.mem_append_right _ List.mem_cons_self

theorem compareWritten {t : Channel ρ w} (channel : m.pwm = some t) : Field.whole t.ocRegister ∈ m.written := by
  unfold Pin.written
  rw [channel]
  exact List.mem_append_right _ (List.mem_cons_of_mem _ List.mem_cons_self)

/- A pin is seen through its own fields. -/
theorem Pin.seenSame (m : Pin ρ w) (same : ∀ x ∈ m.fields, x.read later = x.read regs) : m.seen c later = m.seen c regs := by
  have direction := same m.direction (List.mem_cons_of_mem _ (directionWritten m))
  have output := same m.output (List.mem_cons_of_mem _ (outputWritten m))
  have input := same m.input List.mem_cons_self
  unfold Pin.seen isSet
  rw [direction, output, input]
  cases channel : m.pwm with
  | none => rfl
  | some t =>
    have com := same t.com (List.mem_cons_of_mem _ (comWritten channel))
    have compare := same (.whole t.ocRegister) (List.mem_cons_of_mem _ (compareWritten channel))
    simp only [Option.any_some, Option.elim_some, com, compare]

theorem Chip.seenFound (found : c.pin pin = some m) (regs : File ρ w) : c.seen regs pin = m.seen c regs := by
  rw [Chip.seen, found]
  rfl

theorem Chip.kindFound (found : c.pin pin = some m) :
    (c.single pin).kind = if m.pwm.isSome then .pwm else .digital := by
  rw [Chip.single, found]
  rfl

theorem Chip.pwmFound (pwm : (c.single pin).kind = .pwm) : ∃ m t, c.pin pin = some m ∧ m.pwm = some t := by
  cases found : c.pin pin with
  | none =>
    rw [Chip.single, found] at pwm
    cases pwm
  | some m =>
    rw [Chip.kindFound found] at pwm
    cases channel : m.pwm with
    | none =>
      rw [channel] at pwm
      cases pwm
    | some t => exact ⟨m, t, rfl, channel⟩

theorem readBitSet {bit : Nat} (inside : bit < w) (r : ρ) (regs : File ρ w) :
    readBit regs r bit = ((isSet (.bit r bit) regs).toNat : Int) := by
  unfold readBit isSet
  rw [shiftedBit inside]
  have positive : 1 < 2 ^ w := Nat.one_lt_two_pow (by omega)
  split
  · rename_i zero
    simp [zero]
  · rename_i some
    simp [some, Nat.mod_eq_of_lt positive]

/- The fields of one pin. -/
structure OwnApart (m : Pin ρ w) : Prop where
  direction : m.direction.Apart m.output ∧ ∀ t, m.pwm = some t → m.direction.Apart t.com ∧ m.direction.Apart (.whole t.ocRegister)
  output : m.output.Apart m.direction ∧ ∀ t, m.pwm = some t → m.output.Apart t.com ∧ m.output.Apart (.whole t.ocRegister)
  input : m.input.Apart m.direction ∧ m.input.Apart m.output ∧
    ∀ t, m.pwm = some t → m.input.Apart t.com ∧ m.input.Apart (.whole t.ocRegister)
  com : ∀ t, m.pwm = some t → t.com.Apart m.direction ∧ t.com.Apart m.output ∧ t.com.Apart (.whole t.ocRegister)
  compare : ∀ t, m.pwm = some t → (Field.whole t.ocRegister).Apart m.direction ∧ (Field.whole t.ocRegister).Apart m.output ∧
    (Field.whole t.ocRegister).Apart t.com

theorem Chip.Laid.ownApart (laid : c.Laid) (found : c.pin pin = some m) : OwnApart m := by
  have pairs := laid.own _ (Chip.member found) m rfl
  unfold Pin.fields Pin.written at pairs
  cases channel : m.pwm with
  | none =>
    rw [channel] at pairs
    simp only [List.append_nil, List.pairwise_cons, List.mem_cons, List.not_mem_nil, or_false, forall_eq_or_imp, forall_eq] at pairs
    constructor <;> simp_all
  | some t =>
    rw [channel] at pairs
    simp only [List.cons_append, List.nil_append, List.pairwise_cons, List.mem_cons, List.not_mem_nil, or_false,
      forall_eq_or_imp, forall_eq] at pairs
    constructor <;> simp_all

theorem Chip.Laid.directionMask (laid : c.Laid) (found : c.pin pin = some m) : m.direction.mask ≠ 0#w :=
  bitMask (laid.inside _ (Chip.member found) m rfl) m.dirRegister

theorem Chip.Laid.outputMask (laid : c.Laid) (found : c.pin pin = some m) : m.output.mask ≠ 0#w :=
  bitMask (laid.inside _ (Chip.member found) m rfl) m.outRegister

end Table

/-! One call. -/

section Step
variable {ρ : Type} [DecidableEq ρ] {w : Nat} {c : Chip ρ w} {m : Pin ρ w} {regs later : File ρ w} {pin other : UInt8}

theorem writeBitOnly {x : Field ρ w} {xs : List (Field ρ w)} (member : x ∈ xs) (on : Bool) (regs : File ρ w) :
    OnlyFields xs regs (writeBit regs x on) := by
  cases on
  · exact onlyClear member regs
  · exact onlySet member regs

theorem performOnly (c : Chip ρ w) (pin : UInt8) (regs : File ρ w) (call : Call) :
    OnlyFields (c.writes pin) regs (perform c pin regs call).2 := by
  have same : OnlyFields (c.writes pin) regs regs := .refl _ regs
  have digital : ∀ m, c.pin pin = some m → c.writes pin = m.written := by
    intro m found
    rw [Chip.writes, found]
    rfl
  cases call with
  | setDirection dir =>
    change OnlyFields _ _ (digioSetDirection c pin regs dir).2
    unfold digioSetDirection
    split
    · exact same
    · rename_i m found
      exact writeBitOnly (digital m found ▸ directionWritten m) _ regs
  | setValue value =>
    change OnlyFields _ _ (digioSetValue c pin regs value).2
    unfold digioSetValue
    split
    · exact same
    · rename_i m found
      exact writeBitOnly (digital m found ▸ outputWritten m) _ regs
  | getDirection =>
    change OnlyFields _ _ (digioGetDirection c pin regs).2
    unfold digioGetDirection
    split <;> exact same
  | getValue =>
    change OnlyFields _ _ (digioGetValue c pin regs).2
    unfold digioGetValue
    split <;> exact same
  | isEnabled =>
    change OnlyFields _ _ (pwmIsEnabled c pin regs).2
    unfold pwmIsEnabled
    split <;> exact same
  | getDutyCycle =>
    change OnlyFields _ _ (pwmGetDutyCycle c pin regs).2
    unfold pwmGetDutyCycle
    split <;> exact same
  | enable enable =>
    change OnlyFields _ _ (pwmEnable c pin regs enable).2
    unfold pwmEnable
    split
    · exact same
    · rename_i m t found
      obtain ⟨mapped, channel⟩ := Chip.channelFound.mp found
      rw [digital m mapped]
      have stopped := onlyAssign (compareWritten channel) 0#w regs
      have connected := stopped.trans (writeBitOnly (comWritten channel) enable _)
      exact connected.trans (writeBitOnly (directionWritten m) enable _)
  | setDutyCycle duty =>
    change OnlyFields _ _ (pwmSetDutyCycle c pin regs duty).2
    unfold pwmSetDutyCycle
    split
    · exact same
    · rename_i m t found
      obtain ⟨mapped, channel⟩ := Chip.channelFound.mp found
      rw [digital m mapped]
      exact onlyAssign (compareWritten channel) _ regs

theorem Chip.Laid.seenOther (laid : c.Laid) (different : other ≠ pin) (regs : File ρ w) (call : Call) :
    c.seen (perform c other regs call).2 pin = c.seen regs pin := by
  unfold Chip.seen
  cases found : c.pin pin with
  | none => rfl
  | some m =>
    refine Pin.seenSame m fun x member => performOnly c other regs call x fun y written => ?_
    unfold Chip.writes at written
    cases there : c.pin other with
    | none =>
      rw [there] at written
      cases written
    | some n =>
      rw [there] at written
      exact laid.others found there different x member y written

theorem writeBitApart {x y : Field ρ w} (apart : y.Apart x) (on : Bool) (regs : File ρ w) :
    y.read (writeBit regs x on) = y.read regs := by
  cases on
  · exact apartClear apart regs
  · exact apartSet apart regs

theorem writeBitSet {x : Field ρ w} (some : x.mask ≠ 0#w) (on : Bool) (regs : File ρ w) : isSet x (writeBit regs x on) = on := by
  unfold isSet
  cases on
  · exact decide_eq_false (not_not.mpr (readClear x regs))
  · refine decide_eq_true ?_
    rw [writeBit, if_pos rfl, readSet]
    exact some

/- What each of the four writes is seen as. -/
theorem OwnApart.seenDirection (own : OwnApart m) (some : m.direction.mask ≠ 0#w) (on : Bool) (regs : File ρ w) :
    m.seen c (writeBit regs m.direction on) = { m.seen c regs with output := on == c.outputBit } := by
  unfold Pin.seen
  rw [writeBitSet some]
  unfold isSet
  rw [writeBitApart own.output.1, writeBitApart own.input.1]
  cases channel : m.pwm with
  | none => rfl
  | some t =>
    have com := writeBitApart (own.com t channel).1 on regs
    have compare := writeBitApart (own.compare t channel).1 on regs
    simp only [Option.any_some, Option.elim_some, com, compare]

theorem OwnApart.seenOutput (own : OwnApart m) (some : m.output.mask ≠ 0#w) (on : Bool) (regs : File ρ w) :
    m.seen c (writeBit regs m.output on) = { m.seen c regs with latch := on } := by
  unfold Pin.seen
  rw [writeBitSet some]
  unfold isSet
  rw [writeBitApart own.direction.1, writeBitApart own.input.2.1]
  cases channel : m.pwm with
  | none => rfl
  | some t =>
    have com := writeBitApart (own.com t channel).2.1 on regs
    have compare := writeBitApart (own.compare t channel).2.1 on regs
    simp only [Option.any_some, Option.elim_some, com, compare]

theorem OwnApart.seenCom (own : OwnApart m) {t : Channel ρ w} (channel : m.pwm = some t) (some : t.comMask ≠ 0#w) (on : Bool)
    (regs : File ρ w) : m.seen c (writeBit regs t.com on) = { m.seen c regs with enabled := on } := by
  have set : isSet t.com (writeBit regs t.com on) = on := writeBitSet some on regs
  have compare := writeBitApart (own.compare t channel).2.2 on regs
  unfold Pin.seen
  simp only [channel, Option.any_some, Option.elim_some, set, compare]
  unfold isSet
  rw [writeBitApart (own.direction.2 t channel).1, writeBitApart (own.output.2 t channel).1,
    writeBitApart (own.input.2.2 t channel).1]

theorem OwnApart.seenCompare (own : OwnApart m) {t : Channel ρ w} (channel : m.pwm = some t) (v : BitVec w)
    (regs : File ρ w) : m.seen c (assign t.ocRegister v regs) = { m.seen c regs with duty := c.duty v } := by
  have com := apartAssign (own.com t channel).2.2 v regs
  unfold Pin.seen isSet
  simp only [channel, Option.any_some, Option.elim_some, com, readAssign]
  rw [apartAssign (own.direction.2 t channel).2, apartAssign (own.output.2 t channel).2,
    apartAssign (own.input.2.2 t channel).2]

theorem Call.needsPwm (call : Call) : Kind.pwm ∈ call.needs := by
  unfold Call.needs
  split <;> decide

/- A pin without registers, or without a channel where one is needed. -/
theorem performRefused (regs : File ρ w) {call : Call} (refused : (c.single pin).kind ∉ call.needs) :
    perform c pin regs call = (-1, regs) := by
  cases found : c.pin pin with
  | none =>
    have channel : c.channel pin = none := by
      unfold Chip.channel
      rw [found]
      rfl
    cases call <;> simp only [perform, digioSetDirection, digioGetDirection, digioSetValue, digioGetValue, pwmIsEnabled,
      pwmEnable, pwmGetDutyCycle, pwmSetDutyCycle, found, channel]
  | some m =>
    rw [Chip.kindFound found] at refused
    cases none : m.pwm with
    | some t =>
      rw [none, Option.isSome_some, if_pos rfl] at refused
      exact absurd call.needsPwm refused
    | none =>
      rw [none, Option.isSome_none, if_neg Bool.false_ne_true] at refused
      have channel : c.channel pin = Option.none := by
        unfold Chip.channel
        rw [found]
        simp [none]
      cases call
      case setDirection | getDirection | setValue | getValue => exact absurd (by simp [Call.needs]) refused
      all_goals simp only [perform, pwmIsEnabled, pwmEnable, pwmGetDutyCycle, pwmSetDutyCycle, channel]

/- The calls of the digital driver. -/
theorem Chip.Laid.ownDigital (laid : c.Laid) (found : c.pin pin = some m) (regs : File ρ w) {call : Call}
    (digital : Kind.digital ∈ call.needs) : ((perform c pin regs call).1, c.seen (perform c pin regs call).2 pin) =
      (Single.answer (c.seen regs pin) call, (c.single pin).change (c.seen regs pin) call) := by
  have own := laid.ownApart found
  have inside := laid.inside _ (Chip.member found) m rfl
  rw [Chip.seenFound found, Chip.seenFound found]
  cases call with
  | setDirection dir =>
    have twice : ((dir == c.outputBit) == c.outputBit) = dir := by cases dir <;> cases c.outputBit <;> rfl
    simp only [perform, digioSetDirection, found, own.seenDirection (laid.directionMask found), twice, Single.answer,
      Single.change]
  | setValue value =>
    simp only [perform, digioSetValue, found, own.seenOutput (laid.outputMask found), Single.answer, Single.change]
  | getDirection =>
    simp only [perform, digioGetDirection, found, readBitSet inside, Single.answer, Single.change, Pin.seen, Pin.direction]
    cases isSet (.bit m.dirRegister m.bit) regs <;> cases c.outputBit <;> rfl
  | getValue => simp only [perform, digioGetValue, found, readBitSet inside, Single.answer, Single.change, Pin.seen, Pin.input]
  | isEnabled | enable | getDutyCycle | setDutyCycle => simp [Call.needs] at digital

/- The calls of the PWM driver. -/
theorem Chip.Laid.ownPwm (laid : c.Laid) (found : c.pin pin = some m) {t : Channel ρ w} (channel : m.pwm = some t)
    (regs : File ρ w) {call : Call} (pwm : Kind.digital ∉ call.needs) :
    ((perform c pin regs call).1, c.seen (perform c pin regs call).2 pin) =
      (Single.answer (c.seen regs pin) call, (c.single pin).change (c.seen regs pin) call) := by
  have own := laid.ownApart found
  have both : c.channel pin = some (m, t) := Chip.channelFound.mpr ⟨found, channel⟩
  have mask := laid.masked _ (Chip.member found) m rfl t channel
  rw [Chip.seenFound found, Chip.seenFound found]
  cases call with
  | setDirection | setValue | getDirection | getValue => simp [Call.needs] at pwm
  | isEnabled =>
    simp only [perform, pwmIsEnabled, both, Single.answer, Single.change, Pin.seen, channel, Option.any_some, isSet]
    change ((if t.com.read regs = 0#w then 0 else 1), _) = _
    by_cases zero : t.com.read regs = 0#w <;> simp [zero]
  | enable enable =>
    have direction : (enable == c.outputBit) = (enable != !c.outputBit) := by cases enable <;> cases c.outputBit <;> rfl
    simp only [perform, pwmEnable, both, own.seenDirection (laid.directionMask found), own.seenCom channel mask,
      own.seenCompare channel, Single.answer, Single.change, Chip.single, direction]
  | getDutyCycle =>
    simp only [perform, pwmGetDutyCycle, both, Single.answer, Single.change, Pin.seen, channel, Option.elim_some, readWhole]
  | setDutyCycle duty =>
    simp only [perform, pwmSetDutyCycle, both, own.seenCompare channel, laid.duties, Single.answer, Single.change]

/- A pin answers and changes by itself. -/
theorem Chip.Laid.ownStep (laid : c.Laid) (pin : UInt8) (regs : File ρ w) (call : Call) :
    ((perform c pin regs call).1, c.seen (perform c pin regs call).2 pin) =
      (c.single pin).step (c.seen regs pin) call := by
  unfold Single.step
  by_cases needed : (c.single pin).kind ∈ call.needs
  · rw [if_pos needed]
    obtain ⟨m, found⟩ : ∃ m, c.pin pin = some m := by
      cases here : c.pin pin with
      | some m => exact ⟨m, rfl⟩
      | none =>
        rw [Chip.single, here] at needed
        cases call <;> simp [Call.needs] at needed
    by_cases digital : Kind.digital ∈ call.needs
    · exact laid.ownDigital found regs digital
    · rw [Chip.kindFound found] at needed
      cases channel : m.pwm with
      | some t => exact laid.ownPwm found channel regs digital
      | none =>
        rw [channel] at needed
        exact absurd needed digital
  · rw [if_neg needed, performRefused regs needed]

theorem sampleInput (found : c.pin pin = some m) (levels regs : File ρ w) :
    sample c levels regs m.inRegister = levels m.inRegister := by
  refine if_pos (List.any_eq_true.mpr ⟨_, Chip.member found, ?_⟩)
  simp

theorem sampleOther {r : ρ} (other : ∀ entry ∈ c.pins, ∀ m ∈ entry, r ≠ m.inRegister) (levels regs : File ρ w) :
    sample c levels regs r = regs r := by
  refine if_neg fun input => ?_
  obtain ⟨entry, member, some⟩ := List.any_eq_true.mp input
  cases entry with
  | none => exact Bool.false_ne_true some
  | some m => exact other _ member m rfl (of_decide_eq_true some).symm

/- The levels are all that is sampled. -/
theorem Chip.Laid.sampled (laid : c.Laid) (levels regs : File ρ w) :
    c.seen (sample c levels regs) pin =
      (c.pin pin).elim (c.seen regs pin) fun m => { c.seen regs pin with level := isSet m.input levels } := by
  unfold Chip.seen
  cases found : c.pin pin with
  | none => rfl
  | some m =>
    have written : ∀ x ∈ m.written, x.read (sample c levels regs) = x.read regs := by
      intro x member
      unfold Field.read
      rw [sampleOther fun entry inside n here => laid.inputs entry inside n here _ (Chip.member found) m rfl x member]
    have direction := written m.direction (directionWritten m)
    have output := written m.output (outputWritten m)
    have input : m.input.read (sample c levels regs) = m.input.read levels := by
      unfold Field.read
      change sample c levels regs m.inRegister &&& _ = _
      rw [sampleInput found]
      rfl
    simp only [Option.elim_some, Pin.seen, isSet, direction, output, input]
    cases channel : m.pwm with
    | none => rfl
    | some t =>
      have com := written t.com (comWritten channel)
      have compare := written (.whole t.ocRegister) (compareWritten channel)
      simp only [Option.any_some, Option.elim_some, com, compare]

/- Whatever is called, every pin goes by its own events. -/
theorem Chip.Laid.independent (laid : c.Laid) (pin : UInt8) (regs : File ρ w) (events : List (Event ρ w)) :
    (answers c pin regs events, c.seen (run c regs events) pin) =
      (c.single pin).run (c.seen regs pin) (events.flatMap (c.own pin)) := by
  induction events generalizing regs with
  | nil => rfl
  | cons event rest ih =>
    rw [List.flatMap_cons]
    change (answers c pin regs (event :: rest), c.seen (run c (next c regs event) rest) pin) = _
    cases event with
    | call named call =>
      have after := ih (perform c named regs call).2
      by_cases same : named = pin
      · subst same
        have step := laid.ownStep named regs call
        simp only [answers, if_true, next, Chip.own, List.cons_append, List.nil_append, Single.run, ← step, ← after]
      · rw [laid.seenOther same] at after
        simp only [answers, if_neg same, next, Chip.own, List.nil_append]
        exact after
    | sampled levels =>
      have after := ih (sample c levels regs)
      rw [laid.sampled] at after
      simp only [answers, next, Chip.own]
      cases found : c.pin pin with
      | none =>
        rw [found] at after
        exact after
      | some m =>
        rw [found] at after
        exact after

def initEvents (ρ : Type) (w : Nat) (dir : Bool) (n : Nat) : List (Event ρ w) :=
  (List.range n).flatMap fun i => [.call (UInt8.ofNat i) (.setDirection dir), .call (UInt8.ofNat i) (.setValue 1)]

theorem digioInitRun (c : Chip ρ w) (dir : Bool) (regs : File ρ w) :
    digioInit c dir regs = run c regs (initEvents ρ w dir c.pins.length) := by
  unfold run initEvents digioInit
  rw [List.foldl_flatMap]
  rfl

omit [DecidableEq ρ] in
/- Every pin below the bound is named twice. -/
theorem initEventsOwn (c : Chip ρ w) (pin : UInt8) (dir : Bool) {n : Nat} (short : n ≤ 256) :
    (initEvents ρ w dir n).flatMap (c.own pin) =
      if pin.toNat < n then [.call (.setDirection dir), .call (.setValue 1)] else [] := by
  induction n with
  | zero => rfl
  | succ n ih =>
    have before := ih (by omega)
    unfold initEvents at before ⊢
    rw [List.range_succ, List.flatMap_append, List.flatMap_append, before]
    have named : UInt8.ofNat n = pin ↔ pin.toNat = n := by
      rw [← UInt8.toNat_inj, UInt8.toNat_ofNat', Nat.mod_eq_of_lt (by omega)]
      exact eq_comm
    by_cases last : pin.toNat = n
    · rw [if_neg (by omega), if_pos (by omega)]
      simp [Chip.own, named.mpr last]
    · have other := mt named.mp last
      by_cases earlier : pin.toNat < n
      · rw [if_pos earlier, if_pos (by omega)]
        simp [Chip.own, other]
      · rw [if_neg earlier, if_neg (by omega)]
        simp [Chip.own, other]

/- `DigIO_init` gives every pin one direction and the pull up. -/
theorem Chip.Laid.started (laid : c.Laid) (short : c.pins.length ≤ 256) (found : c.pin pin = some m) (dir : Bool)
    (regs : File ρ w) : c.seen (digioInit c dir regs) pin = { c.seen regs pin with output := dir, latch := true } := by
  obtain ⟨inside, -⟩ := Chip.entry found
  have own := laid.independent pin regs (initEvents ρ w dir c.pins.length)
  rw [← digioInitRun, initEventsOwn c pin dir short, if_pos inside] at own
  have digital : (c.single pin).kind ∈ [Kind.digital, .pwm] := by
    rw [Chip.kindFound found]
    split <;> decide
  have directed (seen : Seen) : (c.single pin).step seen (.setDirection dir) = (0, { seen with output := dir }) :=
    if_pos digital
  have pulled (seen : Seen) : (c.single pin).step seen (.setValue 1) = (0, { seen with latch := true }) := if_pos digital
  have last : ((c.single pin).run (c.seen regs pin) [.call (.setDirection dir), .call (.setValue 1)]).2 =
      { c.seen regs pin with output := dir, latch := true } := by simp only [Single.run, directed, pulled]
  exact (congrArg Prod.snd own).trans last

/- The other bits of the registers. -/
def Chip.Free (c : Chip ρ w) (y : Field ρ w) : Prop :=
  ∀ entry ∈ c.pins, ∀ m ∈ entry, y.register ≠ m.inRegister ∧ ∀ x ∈ m.written, y.Apart x

theorem runFree {y : Field ρ w} (free : c.Free y) (regs : File ρ w) (events : List (Event ρ w)) :
    y.read (run c regs events) = y.read regs := by
  induction events generalizing regs with
  | nil => rfl
  | cons event rest ih =>
    refine (ih (next c regs event)).trans ?_
    cases event with
    | call named call =>
      refine performOnly c named regs call y fun x written => ?_
      unfold Chip.writes at written
      cases there : c.pin named with
      | none =>
        rw [there] at written
        cases written
      | some n =>
        rw [there] at written
        exact (free _ (Chip.member there) n rfl).2 x written
    | sampled levels =>
      change sample c levels regs y.register &&& _ = _
      rw [sampleOther fun entry inside m here => (free entry inside m here).1]
      rfl

end Step

/- In every run, whatever the registers were: each pin goes by the calls that name it and the levels it is at, and no other
bit of a register is touched. Of an input register only the bits at pins are spoken of, not those at which there is none. -/
structure Independent {ρ : Type} [DecidableEq ρ] {w : Nat} (c : Chip ρ w) : Prop where
  pins : ∀ regs events pin, (answers c pin regs events, c.seen (run c regs events) pin) =
    (c.single pin).run (c.seen regs pin) (events.flatMap (c.own pin))
  started : ∀ dir regs pin m, c.pin pin = some m →
    c.seen (digioInit c dir regs) pin = { c.seen regs pin with output := dir, latch := true }
  rest : ∀ regs events (y : Field ρ w), c.Free y → y.read (run c regs events) = y.read regs

theorem Chip.Laid.goesAlone {ρ : Type} [DecidableEq ρ] {w : Nat} {c : Chip ρ w} (laid : c.Laid) (short : c.pins.length ≤ 256) :
    Independent c where
  pins regs events pin := laid.independent pin regs events
  started dir regs _ _ found := laid.started short found dir regs
  rest regs events _ free := runFree free regs events

theorem pinsIndependent : Independent atmega2560 ∧ Independent dspic :=
  ⟨atmega2560Laid.goesAlone (by decide), dspicLaid.goesAlone (by decide)⟩

end OrazioLogger.Pins
