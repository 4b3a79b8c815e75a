import OrazioLogger.BootOrder
import OrazioLogger.BridgeOutcome

/-! What `Orazio_paramInit` makes of the parameters, against the EEPROM that it finds. -/
namespace OrazioLogger.Firmware
open ByteMemory OrazioPackets
open OrazioClient (load16 load32 store32 store32Outside)

variable {F : Type}

/-! A joint by itself: its record in `joint_params` and its bridge. -/

structure Seat where
  record : Fin 25 → UInt8
  bridge : HBridge

def seat (f : State F) (i : Nat) : Seat := ⟨fun k => f.globals .jointParams (jointParam i + k), f.bridges i⟩

/- Where the pins are in the record. -/
def pinIndex : Nat → Fin 25
  | 0 => 22
  | 1 => 23
  | _ => 24

section Seat
variable (b : Board F) (s : Seat)

def Seat.outcome : BridgeOutcome := bridgeOutcome b s.bridge (s.record 22) (s.record 23) (s.record 24) (s.record 21)

def Seat.init : Seat :=
  let o := s.outcome b
  match o.refused with
  | none => ⟨s.record, o.bridge⟩
  | some k => ⟨Function.update s.record (pinIndex k) (s.bridge.pin k), o.bridge⟩

def Seat.accepted : Bool := bridgeAccepted b (s.record 21) (s.record 22) (s.record 23) (s.record 24)

def Seat.refused : Option Nat := firstRefused b (s.record 22) (s.record 23) (s.record 24) (s.record 21)

/- The first pin that is refused, if any is, is one that the bridge holds already. -/
def Seat.Settled : Prop := ∀ k ∈ s.refused b, s.bridge.pin k = s.record (pinIndex k)

def Seat.loaded (record : Fin 25 → UInt8) : Seat := ⟨record, s.bridge⟩

end Seat

section Joints
variable {b : Board F} {f : State F} {s : Seat} {i j k : Nat}

theorem pinIndexSmall (small : k < 3) : (pinIndex k : Nat) = 22 + k := by
  match k, small with
  | 0, _ | 1, _ | 2, _ => rfl

theorem pinIndexApart {n : Nat} (small : k < 3) (other : n < 3) (apart : n ≠ k) : pinIndex n ≠ pinIndex k := by
  intro same
  have same := congrArg Fin.val same
  rw [pinIndexSmall small, pinIndexSmall other] at same
  omega

/- The pins that are refused depend on the record alone, and the bridge keeps its own. -/
theorem Seat.initBridge (refused : s.refused b = some k) : (s.init b).bridge.pin k = s.bridge.pin k ∧
    (s.init b).record = Function.update s.record (pinIndex k) (s.bridge.pin k) := by
  obtain ⟨same, kept⟩ := outcomeRefused b s.bridge (s.record 22) (s.record 23) (s.record 24) (s.record 21)
  have here : (s.outcome b).refused = some k := same.trans refused
  unfold Seat.init
  dsimp only
  rw [here]
  exact ⟨kept k here, rfl⟩

theorem Seat.initAccepted (refused : s.refused b = none) : (s.init b).record = s.record := by
  have here : (s.outcome b).refused = none := (outcomeRefused b _ _ _ _ _).1.trans refused
  unfold Seat.init
  dsimp only
  rw [here]

/- A pin that is the same in the record and in the bridge stays. -/
theorem Seat.initKeeps (small : k < 3) (same : s.record (pinIndex k) = s.bridge.pin k) :
    (s.init b).record (pinIndex k) = s.bridge.pin k := by
  cases refused : s.refused b with
  | none => rw [Seat.initAccepted refused, same]
  | some n =>
    rw [(Seat.initBridge refused).2]
    by_cases here : n = k
    · rw [here, Function.update_self]
    · rw [Function.update_of_ne (pinIndexApart (refusedSmall refused) small (Ne.symm here)), same]

theorem Seat.settledInit (settled : s.Settled b) : (s.init b).record = s.record ∧ (s.init b).Settled b := by
  cases refused : s.refused b with
  | none =>
    have record := Seat.initAccepted refused
    refine ⟨record, fun k again => ?_⟩
    rw [Seat.refused, record] at again
    cases refused.symm.trans again
  | some n =>
    obtain ⟨bridge, updated⟩ := Seat.initBridge refused
    have record : (s.init b).record = s.record := by
      rw [updated, settled n refused, Function.update_eq_self]
    refine ⟨record, fun k again => ?_⟩
    rw [Seat.refused, record] at again
    cases refused.symm.trans again
    rw [bridge, record, settled n refused]

/- One that is set back to another pin stays set back. -/
theorem Seat.unsettledInit (moved : ¬ s.Settled b) :
    (s.init b).record ≠ s.record ∧ ((s.init b).init b).record ≠ s.record := by
  obtain ⟨k, refused, different⟩ : ∃ k, s.refused b = some k ∧ s.bridge.pin k ≠ s.record (pinIndex k) := by
    by_contra none
    exact moved fun k refused => by_contra fun different => none ⟨k, refused, different⟩
  obtain ⟨bridge, updated⟩ := Seat.initBridge refused
  have back : (s.init b).record (pinIndex k) = (s.init b).bridge.pin k := by
    rw [updated, Function.update_self, bridge]
  have again := Seat.initKeeps (b := b) (refusedSmall refused) back
  refine ⟨fun same => different ?_, fun same => different ?_⟩
  · rw [← bridge, ← back, same]
  · rw [← bridge, ← again, same]

theorem Seat.initStays : (s.init b).record = s.record ↔ s.Settled b :=
  ⟨fun same => by_contra fun moved => (Seat.unsettledInit moved).1 same, fun settled => (Seat.settledInit settled).1⟩

theorem Seat.initTwiceStays : ((s.init b).init b).record = s.record ↔ s.Settled b := by
  refine ⟨fun same => by_contra fun moved => (Seat.unsettledInit moved).2 same, fun settled => ?_⟩
  obtain ⟨same, still⟩ := Seat.settledInit settled
  rw [(Seat.settledInit still).1, same]

/-! The joints of the firmware are such joints, side by side. -/

theorem seatAccepted (b : Board F) (f : State F) (i : Nat) : (seat f i).accepted b = jointAccepted b f i := rfl

theorem setPinSeat (small : k < 3) (c : UInt8) (g : State F) :
    seat (setPin g i k c) i = ⟨Function.update (seat g i).record (pinIndex k) c, g.bridges i⟩ := by
  have place : pinAt i k = jointParam i + (pinIndex k : Nat) := by
    rw [pinIndexSmall small, pinAt, Nat.add_assoc]
  have record : (seat (setPin g i k c) i).record = Function.update (seat g i).record (pinIndex k) c := by
    funext n
    by_cases here : n = pinIndex k
    · rw [here, Function.update_self]
      change (setPin g i k c).globals .jointParams (jointParam i + (pinIndex k : Nat)) = c
      rw [← place]
      exact setByteSame _ _ _ _
    · rw [Function.update_of_ne here]
      refine setPinOutside fun same => here (Fin.ext ?_)
      rw [place] at same
      exact Nat.add_left_cancel same
  exact congrArg (Seat.mk · (g.bridges i)) record

theorem jointInitApplied (b : Board F) (i : Nat) (f : State F) : (jointInit b i f).2 =
    ((seat f i).outcome b).applied i (setController f i (jointControllerInit i .zeroed)) :=
  congrArg Prod.snd (hBridgeInitOutcome b i (f.globals .jointParams (jointParam i + 21))
    (setController f i (jointControllerInit i .zeroed)))

theorem jointInitSeat (b : Board F) (i : Nat) (f : State F) : seat (jointInit b i f).2 i = (seat f i).init b := by
  rw [jointInitApplied]
  unfold BridgeOutcome.applied Seat.init
  dsimp only
  cases refused : ((seat f i).outcome b).refused with
  | none => exact congrArg (Seat.mk _) (amidBridge _ _)
  | some k =>
    have small : k < 3 := refusedSmall ((outcomeRefused b _ _ _ _ _).1.symm.trans refused)
    dsimp only
    rw [setPinSeat small, amidBridge]
    rfl

/- A joint does not reach the others. -/
theorem setPinOther (small : k < 3) (other : j ≠ i) (c : UInt8) (g : State F) : seat (setPin g i k c) j = seat g j := by
  have record : (seat (setPin g i k c) j).record = (seat g j).record := by
    funext n
    refine setPinOutside fun same => ?_
    have inside := n.isLt
    simp only [pinAt, jointParamEntry] at same
    omega
  exact congrArg (Seat.mk · (g.bridges j)) record

theorem amidOther (other : j ≠ i) (calls : List DriverCall) (bridge : HBridge) (g : State F) :
    seat (amid g i calls bridge) j = seat g j :=
  congrArg (Seat.mk (seat g j).record) (Function.update_of_ne other ..)

theorem jointInitOther (other : j ≠ i) (b : Board F) (f : State F) : seat (jointInit b i f).2 j = seat f j := by
  rw [jointInitApplied]
  unfold BridgeOutcome.applied
  dsimp only
  cases refused : ((seat f i).outcome b).refused with
  | none => exact amidOther other ..
  | some k =>
    have small : k < 3 := refusedSmall ((outcomeRefused b _ _ _ _ _).1.symm.trans refused)
    dsimp only
    rw [setPinOther small other, amidOther other]
    rfl

theorem jointsInitTwo (b : Board F) (f : State F) : (jointsInit b f).2 =
    if jointAccepted b f 0 = true then (jointInit b 1 (jointInit b 0 f).2).2 else (jointInit b 0 f).2 := by
  have first := jointInitFails b 0 f
  unfold jointsInit numJoints jointsInitLoop
  dsimp only
  cases accepted : jointAccepted b f 0 with
  | false => rw [if_pos (first.mpr accepted), if_neg Bool.false_ne_true]
  | true =>
    rw [accepted] at first
    rw [if_neg fun failed => Bool.noConfusion (first.mp failed), if_pos rfl]
    unfold jointsInitLoop
    dsimp only
    split <;> rfl

theorem jointsInitSeats (b : Board F) (f : State F) : seat (jointsInit b f).2 0 = (seat f 0).init b ∧
    seat (jointsInit b f).2 1 = if (seat f 0).accepted b = true then (seat f 1).init b else seat f 1 := by
  rw [jointsInitTwo, seatAccepted]
  split
  · rw [jointInitOther (by decide), jointInitSeat, jointInitSeat, jointInitOther (by decide)]
    exact ⟨rfl, rfl⟩
  · rw [jointInitSeat, jointInitOther (by decide)]
    exact ⟨rfl, rfl⟩

/-! Loading the joints. -/

/- The record of joint `i` in the EEPROM. -/
def storedRecord (eeprom : Memory) (i : Nat) : Fin 25 → UInt8 := fun k => eeprom (jointSlot i + k)

theorem jointPlace (b : Board F) (inside : i < numJoints) :
    placeOf b paramJointsSingle i = some ⟨.jointParams, jointParam i, jointSlot i⟩ := by
  have joint : JointIndex (i : Int) := ⟨Int.natCast_nonneg i, Int.ofNat_lt.mpr inside⟩
  rw [placeOf, if_neg (by decide), if_pos rfl, if_pos joint, Int.toNat_natCast]

theorem loadJointSeats (b : Board F) (f : State F) (inside : i < numJoints) :
    let read := eepromRead f .jointParams (jointParam i) (jointSlot i) 25
    (paramLoad b paramJointsSingle i f).2 = (jointsInit b read).2 ∧
      seat read i = (seat f i).loaded (storedRecord f.eeprom i) ∧ ∀ j, j ≠ i → seat read j = seat f j := by
  refine ⟨?_, ?_, fun j other => ?_⟩
  · rw [paramLoadPlace (jointPlace b inside)]
    rfl
  · have record : (seat (eepromRead f .jointParams (jointParam i) (jointSlot i) 25) i).record = storedRecord f.eeprom i := by
      funext k
      have here : jointParam i ≤ jointParam i + k ∧ jointParam i + k < jointParam i + 25 :=
        ⟨Nat.le_add_right _ _, Nat.add_lt_add_left k.isLt _⟩
      change (f.set .jointParams _).globals .jointParams (jointParam i + k) = f.eeprom (jointSlot i + k)
      rw [setSame]
      refine (if_pos here).trans ?_
      rw [Nat.add_sub_cancel_left]
    exact congrArg (Seat.mk · (f.bridges i)) record
  · have record : (seat (eepromRead f .jointParams (jointParam i) (jointSlot i) 25) j).record = (seat f j).record := by
      funext k
      have apart : ¬ (jointParam i ≤ jointParam j + k ∧ jointParam j + k < jointParam i + 25) := by
        have small := k.isLt
        simp only [jointParamEntry]
        omega
      change (f.set .jointParams _).globals .jointParams (jointParam j + k) = f.globals .jointParams (jointParam j + k)
      rw [setSame]
      exact if_neg apart
    exact congrArg (Seat.mk · (f.bridges j)) record

/- Every load initialises both joints again. -/
theorem loadedSeats (b : Board F) (f : State F) :
    let g := (paramLoad b paramJointsSingle (1 : Nat) (paramLoad b paramJointsSingle (0 : Nat) f).2).2
    let first := (seat f 0).loaded (storedRecord f.eeprom 0)
    let second := (if first.accepted b = true then (seat f 1).init b else seat f 1).loaded (storedRecord f.eeprom 1)
    seat g 0 = (first.init b).init b ∧ seat g 1 = if (first.init b).accepted b = true then second.init b else second := by
  obtain ⟨loaded, own, others⟩ := loadJointSeats b f (show 0 < numJoints by decide)
  have eeprom : (paramLoad b paramJointsSingle (0 : Nat) f).2.eeprom = f.eeprom := by
    rw [loaded, (jointsInitEnds b _).only.same]
    rfl
  obtain ⟨again, late, before⟩ :=
    loadJointSeats b (paramLoad b paramJointsSingle (0 : Nat) f).2 (show 1 < numJoints by decide)
  dsimp only
  rw [again, (jointsInitSeats b _).1, (jointsInitSeats b _).2, before 0 (by decide), late, eeprom, loaded,
    (jointsInitSeats b _).1, (jointsInitSeats b _).2, own, others 1 (by decide)]
  exact ⟨rfl, rfl⟩

/- When the joints end up with what is stored. -/
theorem loadedRecords (b : Board F) (f : State F) :
    let g := (paramLoad b paramJointsSingle (1 : Nat) (paramLoad b paramJointsSingle (0 : Nat) f).2).2
    let first := (seat f 0).loaded (storedRecord f.eeprom 0)
    ((seat g 0).record = storedRecord f.eeprom 0 ∧ (seat g 1).record = storedRecord f.eeprom 1) ↔
      first.Settled b ∧ (first.accepted b = true → (((seat f 1).init b).loaded (storedRecord f.eeprom 1)).Settled b) := by
  obtain ⟨zero, one⟩ := loadedSeats b f
  dsimp only
  rw [zero, one]
  have stays := Seat.initTwiceStays (b := b) (s := (seat f 0).loaded (storedRecord f.eeprom 0))
  refine (and_congr_left' stays).trans (and_congr_right fun settled => ?_)
  have same : (((seat f 0).loaded (storedRecord f.eeprom 0)).init b).accepted b =
      ((seat f 0).loaded (storedRecord f.eeprom 0)).accepted b := by
    rw [Seat.accepted, (Seat.settledInit settled).1, Seat.accepted]
  rw [same]
  split
  · rename_i accepted
    rw [imp_iff_right accepted]
    exact Seat.initStays
  · rename_i missed
    exact iff_of_true rfl fun accepted => absurd accepted missed

end Joints

/-! Loading all of the parameters. -/

section Loads
variable {b : Board F} {f : State F} {paramType : UInt8} {index : Int} {place : Place}

/- A load leaves the parameters of the other classes, and the EEPROM. -/
structure LoadsOne (place : Place) (f g : State F) : Prop where
  bridges : g.bridges = f.bridges
  eeprom : g.eeprom = f.eeprom
  own : g.globals place.global = copyBytes (f.globals place.global) place.offset f.eeprom place.slot place.size
  others : ∀ other, other ≠ place.global → other ≠ .driveStatus → g.globals other = f.globals other

theorem loadSingle (found : placeOf b paramType index = some place) (single : paramType ≠ paramJointsSingle) (f : State F) :
    LoadsOne place f (paramLoad b paramType index f).2 := by
  have status : place.global ≠ .driveStatus := by cases slotOf found <;> nofun
  rw [paramLoadPlace found]
  have own : (eepromRead f place.global place.offset place.slot place.size).globals place.global = _ := setSame ..
  have others : ∀ other, other ≠ place.global → (eepromRead f place.global place.offset place.slot place.size).globals other =
      f.globals other := fun other apart => setOther _ _ _ apart
  have read : LoadsOne place f (eepromRead f place.global place.offset place.slot place.size) :=
    ⟨rfl, rfl, own, fun other apart _ => others other apart⟩
  generalize eepromRead f place.global place.offset place.slot place.size = r at read
  have drive : LoadsOne place f (driveInit b r).2 := by
    have only := driveInitOnly b r
    have globals : ∀ other, other ≠ .driveStatus → (driveInit b r).2.globals other = r.globals other := fun other apart =>
      funext fun a => only.globals other a fun written => apart written.1
    refine ⟨?_, ?_, (globals _ status).trans read.own, fun other apart quiet => ?_⟩
    · rw [only.same, ← read.bridges]
    · rw [only.same, ← read.eeprom]
    · exact (globals other quiet).trans (read.others other apart quiet)
  unfold paramSet
  dsimp only
  split
  · exact drive
  split
  · exact drive
  split
  · exact ⟨read.bridges, read.eeprom, read.own, read.others⟩
  · exact read

theorem loadJointOther (b : Board F) (f : State F) {i : Nat} (inside : i < numJoints) :
    let g := (paramLoad b paramJointsSingle i f).2
    g.eeprom = f.eeprom ∧ ∀ other, other ≠ .jointParams → g.globals other = f.globals other := by
  dsimp only
  rw [(loadJointSeats b f inside).1]
  have only := (jointsInitEnds b (eepromRead f .jointParams (jointParam i) (jointSlot i) 25)).only
  refine ⟨by rw [only.same]; rfl, fun other apart => funext fun a => ?_⟩
  rw [only.globals other a fun written => apart written.1]
  exact congrFun (setOther _ _ _ apart) a

theorem seatSame {g : State F} (bridges : g.bridges = f.bridges) (records : g.globals .jointParams = f.globals .jointParams)
    (i : Nat) : seat g i = seat f i := by
  rw [seat, seat, bridges, records]

/- What is loaded, class by class. -/
structure LoadsAll (b : Board F) (f g : State F) : Prop where
  eeprom : g.eeprom = f.eeprom
  system : g.globals .systemParams = copyBytes (f.globals .systemParams) 0 f.eeprom 40 24
  drive : g.globals .driveParams = copyBytes (f.globals .driveParams) 0 f.eeprom 64 38
  sonar : b.sonar = true → g.globals .sonarParams = copyBytes (f.globals .sonarParams) 0 f.eeprom 102 12
  joints : let first := (seat f 0).loaded (storedRecord f.eeprom 0)
    ((seat g 0).record = storedRecord f.eeprom 0 ∧ (seat g 1).record = storedRecord f.eeprom 1) ↔
      first.Settled b ∧ (first.accepted b = true → (((seat f 1).init b).loaded (storedRecord f.eeprom 1)).Settled b)

theorem loadsAll (b : Board F) (f : State F) :
    LoadsAll b f (eachParam b (fun paramType index f => (paramLoad b paramType index f).2) f) := by
  have systemPlace : placeOf b paramSystem (-1) = some ⟨.systemParams, 0, systemParamOffset⟩ := rfl
  have drivePlace : placeOf b paramDrive (-1) = some ⟨.driveParams, 0, driveParamOffset⟩ := rfl
  have system := loadSingle systemPlace (by decide) f
  have order : eachParam b (fun paramType index f => (paramLoad b paramType index f).2) f =
      let first := (paramLoad b paramJointsSingle (0 : Nat) (paramLoad b paramSystem (-1) f).2).2
      let joints := (paramLoad b paramJointsSingle (1 : Nat) first).2
      let drive := (paramLoad b paramDrive (-1) joints).2
      if b.sonar then (paramLoad b paramSonar (-1) drive).2 else drive := rfl
  rw [order]
  dsimp only
  generalize (paramLoad b paramSystem (-1) f).2 = f1 at system ⊢
  obtain ⟨zeroStore, zeroGlobals⟩ := loadJointOther b f1 (show 0 < numJoints by decide)
  obtain ⟨oneStore, oneGlobals⟩ :=
    loadJointOther b (paramLoad b paramJointsSingle (0 : Nat) f1).2 (show 1 < numJoints by decide)
  have globals := fun other apart => (oneGlobals other apart).trans (zeroGlobals other apart)
  have joints := loadedRecords b f1
  dsimp only at joints
  rw [seatSame system.bridges (system.others _ (by decide) (by decide)),
    seatSame system.bridges (system.others _ (by decide) (by decide)), system.eeprom] at joints
  have eeprom := (oneStore.trans zeroStore).trans system.eeprom
  generalize (paramLoad b paramJointsSingle (1 : Nat) (paramLoad b paramJointsSingle (0 : Nat) f1).2).2 = f2
    at eeprom globals joints ⊢
  have drive := loadSingle drivePlace (by decide) f2
  rw [← seatSame drive.bridges (drive.others _ (by decide) (by decide)),
    ← seatSame drive.bridges (drive.others _ (by decide) (by decide))] at joints
  generalize (paramLoad b paramDrive (-1) f2).2 = f3 at drive joints ⊢
  have systemNow : f3.globals .systemParams = copyBytes (f.globals .systemParams) 0 f.eeprom 40 24 :=
    (drive.others _ (by decide) (by decide)).trans ((globals _ (by decide)).trans system.own)
  have driveNow : f3.globals .driveParams = copyBytes (f.globals .driveParams) 0 f.eeprom 64 38 := by
    refine drive.own.trans ?_
    rw [globals _ (by decide), system.others _ (by decide) (by decide), eeprom]
    rfl
  by_cases compiled : b.sonar = true
  · have sonarPlace : placeOf b paramSonar (-1) = some ⟨.sonarParams, 0, sonarParamOffset⟩ := by
      unfold placeOf
      rw [compiled]
      rfl
    have sonar := loadSingle sonarPlace (by decide) f3
    rw [if_pos compiled]
    generalize (paramLoad b paramSonar (-1) f3).2 = f4 at sonar ⊢
    rw [← seatSame sonar.bridges (sonar.others _ (by decide) (by decide)),
      ← seatSame sonar.bridges (sonar.others _ (by decide) (by decide))] at joints
    have sonarNow : f4.globals .sonarParams = copyBytes (f.globals .sonarParams) 0 f.eeprom 102 12 := by
      refine sonar.own.trans ?_
      rw [drive.others _ (by decide) (by decide), globals _ (by decide), system.others _ (by decide) (by decide),
        drive.eeprom, eeprom]
      rfl
    exact ⟨sonar.eeprom.trans (drive.eeprom.trans eeprom), (sonar.others _ (by decide) (by decide)).trans systemNow,
      (sonar.others _ (by decide) (by decide)).trans driveNow, fun _ => sonarNow, joints⟩
  · rw [if_neg compiled]
    exact ⟨drive.eeprom.trans eeprom, systemNow, driveNow, fun used => absurd used compiled, joints⟩

end Loads

/-! The words of the versions. -/

section Versions
variable {m n : Memory} {a c : Nat}

theorem bytesOfLoad (low high : UInt8) : (low.toUInt16 ||| (high.toUInt16 <<< 8)).toUInt8 = low ∧
    ((low.toUInt16 ||| (high.toUInt16 <<< 8)) >>> 8).toUInt8 = high := by
  constructor
  · refine UInt8.toBitVec_inj.mp ?_
    ext k small
    simp
  · refine UInt8.toBitVec_inj.mp ?_
    ext k small
    simp
    grind

theorem wordsOfLoad (low high : UInt16) : (low.toUInt32 ||| (high.toUInt32 <<< 16)).toUInt16 = low ∧
    ((low.toUInt32 ||| (high.toUInt32 <<< 16)) >>> 16).toUInt16 = high := by
  constructor
  · refine UInt16.toBitVec_inj.mp ?_
    ext k small
    simp
  · refine UInt16.toBitVec_inj.mp ?_
    ext k small
    simp
    grind

theorem load16Bytes (same : load16 m a = load16 n c) : m a = n c ∧ m (a + 1) = n (c + 1) := by
  have mine := bytesOfLoad (m a) (m (a + 1))
  have yours := bytesOfLoad (n c) (n (c + 1))
  rw [← load16, same, load16] at mine
  exact ⟨mine.1.symm.trans yours.1, mine.2.symm.trans yours.2⟩

theorem load32Bytes (same : load32 m a = load32 n c) {k : Nat} (inside : k < 4) : m (a + k) = n (c + k) := by
  have mine := wordsOfLoad (load16 m a) (load16 m (a + 2))
  have yours := wordsOfLoad (load16 n c) (load16 n (c + 2))
  rw [← load32, same, load32] at mine
  have low := load16Bytes (mine.1.symm.trans yours.1)
  have high := load16Bytes (mine.2.symm.trans yours.2)
  obtain rfl | rfl | rfl | rfl : k = 0 ∨ k = 1 ∨ k = 2 ∨ k = 3 := by omega
  · exact low.1
  · exact low.2
  · exact high.1
  · exact high.2

/- Two words at `a` and at `a+4`. -/
theorem versionWords (m : Memory) (cpv cfv : UInt32) : load32 (store32 (store32 m 4 cpv) 8 cfv) 4 = cpv ∧
    load32 (store32 (store32 m 4 cpv) 8 cfv) 8 = cfv := by
  refine ⟨?_, load32Store32 _ _ _⟩
  rw [load32Congr fun x inside => store32Outside cfv ?_]
  · exact load32Store32 _ _ _
  · intro other
    have := inside.2
    have := other.1
    omega

end Versions

/-! Starting up. -/

/- The two bytes of the source are the same parameter. -/
def paramByte (f : State F) (place : Place) (k : Nat) : UInt8 := f.globals place.global (place.offset + k)

structure StartUp (b : Board F) (eeprom : Memory) : Prop where
  version : load32 ((paramInit b (powerOn b eeprom)).globals .systemParams) 4 = orazioProtocolVersion
  stored : load32 (paramInit b (powerOn b eeprom)).eeprom protocolVersionOffset = orazioProtocolVersion
  classes : ∀ paramType index place, placeOf b paramType index = some place → ∀ k < place.size,
    paramByte (paramInit b (powerOn b eeprom)) place k =
      if load32 eeprom protocolVersionOffset = orazioProtocolVersion then eeprom (place.slot + k)
      else paramByte (powerOn b eeprom) place k
  again : ∀ paramType index place, placeOf b paramType index = some place → ∀ k < place.size,
    paramByte (paramInit b (powerOn b (paramInit b (powerOn b eeprom)).eeprom)) place k =
      paramByte (paramInit b (powerOn b eeprom)) place k

/- The bridge of joint 1 with its default pins, which comes first. -/
def defaultBridge (b : Board F) : HBridge :=
  let (forward, backward) := b.dualPwmPins 1
  { ops := some .dualPwm
    pin0 := if b.pwmPin forward then forward else 0
    pin1 := if b.pwmPin forward && b.pwmPin backward then backward else 0
    pin2 := 0 }

/- What is stored can stay as it is. -/
structure Loadable (b : Board F) (eeprom : Memory) : Prop where
  version : load32 eeprom protocolVersionOffset = orazioProtocolVersion
  protocol : load32 eeprom (systemParamOffset + 4) = load32 eeprom protocolVersionOffset
  firmware : load32 eeprom (systemParamOffset + 8) = load32 eeprom firmwareVersionOffset
  first : Seat.Settled b ⟨storedRecord eeprom 0, ⟨none, 0, 0, 0⟩⟩
  second : Seat.accepted b ⟨storedRecord eeprom 0, ⟨none, 0, 0, 0⟩⟩ = true →
    Seat.Settled b ⟨storedRecord eeprom 1, defaultBridge b⟩

section StartUp
variable {b : Board F} {eeprom : Memory}

theorem paramInitVersion (b : Board F) (f : State F) :
    load32 ((paramInit b f).globals .systemParams) 4 = load32 f.eeprom protocolVersionOffset := by
  rw [paramInitHalves]
  change load32 ((State.set _ .systemParams _).globals .systemParams) 4 = _
  rw [setSame]
  exact (versionWords _ _ _).1

/- Saving the classes leaves the words of the versions. -/
theorem savesKeepVersion (b : Board F) (f : State F) :
    load32 (eachParam b (fun paramType index f => (paramSave b paramType index f).2) f).eeprom protocolVersionOffset =
      load32 f.eeprom protocolVersionOffset := by
  have calls : eachParam b (fun paramType index f => (paramSave b paramType index f).2) f =
      storeCalls b f ((paramClasses b).map fun c => .save c.1 c.2) := by
    rw [eachParamClasses, storeCalls, List.foldl_map]
    rfl
  have valid : ∀ c ∈ paramClasses b, (placeOf b c.1 c.2).isSome = true := by
    unfold paramClasses
    intro c listed
    rcases List.mem_append.mp listed with early | late
    · rcases List.mem_cons.mp early with rfl | joint
      · rfl
      · obtain ⟨i, inside, rfl⟩ := List.mem_map.mp joint
        rw [jointPlace b (List.mem_range.mp inside)]
        rfl
    · rcases List.mem_cons.mp late with rfl | sonar
      · rfl
      · split at sonar
        · rename_i used
          cases List.mem_singleton.mp sonar
          unfold placeOf
          rw [used]
          rfl
        · cases sonar
  rw [calls]
  refine load32Congr fun x inside => storeCallsOutside _ ?_ fun call _ => versionWrites b call (lt_trans inside.2 (by decide))
  intro call listed
  obtain ⟨c, member, rfl⟩ := List.mem_map.mp listed
  exact valid c member

/- The EEPROM has the version of the firmware afterwards, whatever it had before; so the second start reports it. -/
theorem storedVersion (b : Board F) (eeprom : Memory) :
    load32 (paramInit b (powerOn b eeprom)).eeprom protocolVersionOffset = orazioProtocolVersion := by
  have loads := (loadsAll b (saveDefaults b (powerOn b eeprom))).eeprom
  have kept : (paramInit b (powerOn b eeprom)).eeprom = (saveDefaults b (powerOn b eeprom)).eeprom := by
    rw [paramInitHalves]
    exact loads
  rw [kept]
  unfold saveDefaults
  dsimp only
  split
  · rw [savesKeepVersion, ← powerOnVersion b eeprom]
    have moved : load32 (fun x => (powerOn b eeprom).globals .systemParams (x - 28)) protocolVersionOffset =
        load32 ((powerOn b eeprom).globals .systemParams) 4 := rfl
    rw [← moved]
    refine load32Congr fun x inside => ?_
    have low : 32 ≤ (x : Nat) := inside.1
    have high : (x : Nat) < 36 := inside.2
    refine (if_neg fun behind => ?_).trans ((if_pos ⟨low, high⟩).trans ?_)
    · exact absurd behind.1 (Nat.not_le.mpr high)
    · refine congrArg ((powerOn b eeprom).globals .systemParams) ?_
      change 4 + ((x : Nat) - 32) = x - 28
      omega
  · rename_i same
    exact (not_not.mp same).trans (powerOnVersion b eeprom)

theorem secondStartVersion (b : Board F) (eeprom : Memory) :
    load32 ((paramInit b (powerOn b (paramInit b (powerOn b eeprom)).eeprom)).globals .systemParams) 4 =
      orazioProtocolVersion :=
  (paramInitVersion b _).trans (storedVersion b eeprom)

theorem initOutcome (b : Board F) (s : Seat) : (s.init b).bridge = (s.outcome b).bridge := by
  unfold Seat.init
  dsimp only
  split <;> rfl

theorem defaultSeat (b : Board F) (eeprom : Memory) : ((seat (powerOn b eeprom) 1).init b).bridge = defaultBridge b := by
  have record : (seat (powerOn b eeprom) 1).outcome b =
      dualPwmOutcome b ⟨none, 0, 0, 0⟩ (b.dualPwmPins 1).1 (b.dualPwmPins 1).2 := rfl
  rw [initOutcome, record]
  unfold dualPwmOutcome defaultBridge
  dsimp only
  cases b.pwmPin (b.dualPwmPins 1).1 <;> cases b.pwmPin (b.dualPwmPins 1).2 <;> rfl

/- The words that are written behind the load are the stored ones. -/
theorem systemStored (m eeprom : Memory) (cpv cfv : UInt32) :
    (∀ k : Nat, k < 24 → store32 (store32 (copyBytes m 0 eeprom systemParamOffset 24) 4 cpv) 8 cfv k =
      eeprom (systemParamOffset + k)) ↔
      load32 eeprom (systemParamOffset + 4) = cpv ∧ load32 eeprom (systemParamOffset + 8) = cfv := by
  have words := versionWords (copyBytes m 0 eeprom systemParamOffset 24) cpv cfv
  constructor
  · intro all
    have stored : ∀ a : Nat, a + 4 ≤ 24 → load32 eeprom (systemParamOffset + a) =
        load32 (store32 (store32 (copyBytes m 0 eeprom systemParamOffset 24) 4 cpv) 8 cfv) a := by
      intro a fits
      have moved : load32 (fun x => eeprom (systemParamOffset + x)) a = load32 eeprom (systemParamOffset + a) := rfl
      rw [← moved]
      refine load32Congr fun x inside => (all x ?_).symm
      exact Nat.lt_of_lt_of_le inside.2 fits
    exact ⟨(stored 4 (by decide)).trans words.1, (stored 8 (by decide)).trans words.2⟩
  · rintro ⟨protocol, firmware⟩ k small
    by_cases first : 4 ≤ k ∧ k < 8
    · obtain ⟨i, rfl⟩ := Nat.exists_eq_add_of_le first.1
      rw [← Nat.add_assoc]
      exact load32Bytes (words.1.trans protocol.symm) (show i < 4 by omega)
    by_cases second : 8 ≤ k ∧ k < 12
    · obtain ⟨i, rfl⟩ := Nat.exists_eq_add_of_le second.1
      rw [← Nat.add_assoc]
      exact load32Bytes (words.2.trans firmware.symm) (show i < 4 by omega)
    · have outside : ∀ a, a = 4 ∨ a = 8 → ¬ Inside a 4 k := by
        intro a at_ inside
        have low := inside.1
        have high := inside.2
        omega
      rw [store32Outside cfv (outside 8 (Or.inr rfl)), store32Outside cpv (outside 4 (Or.inl rfl))]
      exact if_pos ⟨Nat.zero_le k, by omega⟩

/- Parameters of the same version are loaded as they are. -/
theorem paramInitLoads (b : Board F) (same : load32 eeprom protocolVersionOffset = orazioProtocolVersion) :
    let f := powerOn b eeprom
    let loaded := eachParam b (fun paramType index f => (paramLoad b paramType index f).2) f
    paramInit b f = bootStep b loaded (.setVersions (load32 eeprom protocolVersionOffset) (load32 eeprom firmwareVersionOffset)) := by
  dsimp only
  have unsaved : saveDefaults b (powerOn b eeprom) = powerOn b eeprom := by
    refine if_neg (not_not.mpr ?_)
    rw [powerOnVersion]
    exact same
  rw [paramInitHalves, unsaved]
  rfl

theorem classesStored (b : Board F) (same : load32 eeprom protocolVersionOffset = orazioProtocolVersion) :
    (∀ paramType index place, placeOf b paramType index = some place → ∀ k < place.size,
      paramByte (paramInit b (powerOn b eeprom)) place k = eeprom (place.slot + k)) ↔ Loadable b eeprom := by
  have all := loadsAll b (powerOn b eeprom)
  rw [paramInitLoads b same]
  generalize eachParam b (fun paramType index f => (paramLoad b paramType index f).2) (powerOn b eeprom) = g at all
  have system : (bootStep b g (.setVersions (load32 eeprom protocolVersionOffset) (load32 eeprom firmwareVersionOffset))).globals
      .systemParams = store32 (store32 (copyBytes ((powerOn b eeprom).globals .systemParams) 0 eeprom systemParamOffset 24) 4
        (load32 eeprom protocolVersionOffset)) 8 (load32 eeprom firmwareVersionOffset) := by
    rw [bootStep, setSame, all.system]
    rfl
  have others : ∀ other, other ≠ .systemParams → (bootStep b g (.setVersions (load32 eeprom protocolVersionOffset)
      (load32 eeprom firmwareVersionOffset))).globals other = g.globals other := fun other apart => setOther _ _ _ apart
  have joints : ((seat g 0).record = storedRecord eeprom 0 ∧ (seat g 1).record = storedRecord eeprom 1) ↔
      Seat.Settled b ⟨storedRecord eeprom 0, ⟨none, 0, 0, 0⟩⟩ ∧
        (Seat.accepted b ⟨storedRecord eeprom 0, ⟨none, 0, 0, 0⟩⟩ = true →
          Seat.Settled b ⟨storedRecord eeprom 1, defaultBridge b⟩) := by
    rw [← defaultSeat b eeprom]
    exact all.joints
  have versions := systemStored ((powerOn b eeprom).globals .systemParams) eeprom (load32 eeprom protocolVersionOffset)
    (load32 eeprom firmwareVersionOffset)
  rw [← system] at versions
  generalize bootStep b g (.setVersions (load32 eeprom protocolVersionOffset) (load32 eeprom firmwareVersionOffset)) = started
    at others versions ⊢
  unfold paramByte
  constructor
  · intro classes
    have record : ∀ i < numJoints, (seat g i).record = storedRecord eeprom i := by
      intro i inside
      funext k
      have byte := classes _ _ _ (jointPlace b inside) k k.isLt
      rw [others .jointParams (by decide)] at byte
      exact byte
    obtain ⟨protocol, firmware⟩ := versions.mp fun k small => by
      have byte := classes paramSystem (-1) ⟨.systemParams, 0, systemParamOffset⟩ rfl k small
      rwa [Nat.zero_add] at byte
    obtain ⟨first, second⟩ := joints.mp ⟨record 0 (by decide), record 1 (by decide)⟩
    exact ⟨same, protocol, firmware, first, second⟩
  · intro loadable paramType index place found k small
    obtain ⟨zero, one⟩ := joints.mpr ⟨loadable.first, loadable.second⟩
    cases slotOf found with
    | system =>
      rw [Nat.zero_add]
      exact versions.mpr ⟨loadable.protocol, loadable.firmware⟩ k small
    | drive =>
      rw [others _ (by decide), all.drive, Nat.zero_add]
      exact if_pos ⟨Nat.zero_le k, small⟩
    | sonar used =>
      rw [others _ (by decide), all.sonar used, Nat.zero_add]
      exact if_pos ⟨Nat.zero_le k, small⟩
    | @joint i inside =>
      have record : (seat g i).record = storedRecord eeprom i := by
        obtain rfl | rfl : i = 0 ∨ i = 1 := by
          rw [numJoints] at inside
          omega
        · exact zero
        · exact one
      rw [others .jointParams (by decide), ← jointSlotEntry inside]
      exact congrFun record ⟨k, small⟩

theorem startUpStable (b : Board F) (eeprom : Memory) : StartUp b eeprom ↔ Loadable b eeprom := by
  constructor
  · intro startUp
    have same : load32 eeprom protocolVersionOffset = orazioProtocolVersion :=
      (paramInitVersion b (powerOn b eeprom)).symm.trans startUp.version
    refine (classesStored b same).mp fun paramType index place found k small => ?_
    have byte := startUp.classes paramType index place found k small
    rwa [if_pos same] at byte
  · intro loadable
    have kept : (paramInit b (powerOn b eeprom)).eeprom = eeprom := by
      rw [paramInitLoads b loadable.version]
      exact (loadsAll b (powerOn b eeprom)).eeprom
    have classes := (classesStored b loadable.version).mpr loadable
    refine ⟨(paramInitVersion b _).trans loadable.version, storedVersion b eeprom,
      fun paramType index place found k small => ?_, fun _ _ _ _ _ _ => ?_⟩
    · rw [if_pos loadable.version]
      exact classes paramType index place found k small
    · rw [kept]

end StartUp

/- The first start with an empty EEPROM: the defaults are saved and loaded, and the version of the EEPROM before is put in
their place. -/
theorem firstStartMisreports : let f := paramInit bench (powerOn bench fun _ => 0xFF)
    load32 f.eeprom protocolVersionOffset = orazioProtocolVersion ∧
      load32 f.eeprom (systemParamOffset + 4) = orazioProtocolVersion ∧
      load32 (f.globals .systemParams) 4 = 0xFFFFFFFF ∧ ¬ StartUp bench fun _ => 0xFF := by
  have reported : load32 ((paramInit bench (powerOn bench fun _ => 0xFF)).globals .systemParams) 4 = 0xFFFFFFFF := by
    decide +kernel
  refine ⟨by decide +kernel, by decide +kernel, reported, fun startUp => ?_⟩
  exact absurd (reported.symm.trans startUp.version) (by decide)

end OrazioLogger.Firmware
