import OrazioLogger.DataEEOutages
import OrazioLogger.ParamStore

/-! orazio_param.c on the dspic, whose EEPROM is the emulated one: byte by byte it is the array of orazio_param.c. -/
namespace OrazioLogger.Firmware
open ByteMemory OrazioPackets
open OrazioClient (load16 load32 store32)
open DataEE (Layout Values Served)

variable {F : Type}

/- The firmware and its flash. The array `eeprom` is written for comparison, and nothing here reads it. -/
abbrev Emulated (F : Type) := State F × DataEE.State

def putBytes (m : Memory) (dest : Nat) (bytes : List UInt8) : Memory := fun a =>
  if dest ≤ a then (bytes[a - dest]?).getD (m a) else m a

def emulatedRead (l : Layout) (g : Global) (offset src size : Nat) (x : Emulated F) : Emulated F :=
  let (bytes, s) := DataEE.eepromRead l (UInt16.ofNat src) (UInt16.ofNat size) x.2
  (x.1.set g (putBytes (x.1.globals g) offset bytes), s)

/- A variable of main memory that is 0 before. -/
def emulatedWord (l : Layout) (src : Nat) (x : Emulated F) : UInt32 × Emulated F :=
  let (bytes, s) := DataEE.eepromRead l (UInt16.ofNat src) 4 x.2
  (load32 (putBytes (fun _ => 0) 0 bytes) 0, (x.1, s))

def emulatedWrite (l : Layout) (dest : Nat) (g : Global) (offset size : Nat) (x : Emulated F) : Emulated F :=
  (eepromWrite x.1 dest g offset size, DataEE.eepromWrite l (UInt16.ofNat dest) (load (x.1.globals g) offset size) x.2)

def inMemory (step : State F → State F) (x : Emulated F) : Emulated F := (step x.1, x.2)

def emulatedLoad (b : Board F) (l : Layout) (paramType : UInt8) (index : Int) (x : Emulated F) : PacketStatus × Emulated F :=
  let set := inMemory fun f => (paramSet b paramType f).2
  if paramType = paramSystem then
    (.success, set (emulatedRead l .systemParams 0 systemParamOffset sizeofSystemParamPacket.toNat x))
  else if paramType = paramJointsSingle then
    let x := inMemory (fun f => checkIndex f index) x
    let x := if 0 ≤ index then
        emulatedRead l .jointParams (jointParam index.toNat) (jointSlot index) sizeofJointParamPacket.toNat x
      else x
    (.success, set x)
  else if paramType = paramDrive then
    (.success, set (emulatedRead l .driveParams 0 driveParamOffset sizeofDifferentialDriveParamPacket.toNat x))
  else if paramType = paramSonar ∧ b.sonar then
    (.success, set (emulatedRead l .sonarParams 0 sonarParamOffset sizeofSonarParamPacket.toNat x))
  else (.genericError, x)

def emulatedSave (b : Board F) (l : Layout) (paramType : UInt8) (index : Int) (x : Emulated F) : PacketStatus × Emulated F :=
  if paramType = paramSystem then
    (.success, emulatedWrite l systemParamOffset .systemParams 0 sizeofSystemParamPacket.toNat x)
  else if paramType = paramJointsSingle then
    (.success, emulatedWrite l (jointSlot index) .jointParams (jointParam index.toNat) sizeofJointParamPacket.toNat
      (inMemory (fun f => checkIndex f index) x))
  else if paramType = paramDrive then
    (.success, emulatedWrite l driveParamOffset .driveParams 0 sizeofDifferentialDriveParamPacket.toNat x)
  else if paramType = paramSonar ∧ b.sonar then
    (.success, emulatedWrite l sonarParamOffset .sonarParams 0 sizeofSonarParamPacket.toNat x)
  else (.genericError, x)

def eachEmulated (b : Board F) (one : UInt8 → Int → Emulated F → Emulated F) (x : Emulated F) : Emulated F :=
  let x := one paramSystem (-1) x
  let x := (List.range numJoints).foldl (fun x i => one paramJointsSingle i x) x
  let x := one paramDrive (-1) x
  if b.sonar then one paramSonar (-1) x else x

def emulatedInit (b : Board F) (l : Layout) (x : Emulated F) : Emulated F :=
  let (cpv, x) := emulatedWord l protocolVersionOffset x
  let (cfv, x) := emulatedWord l firmwareVersionOffset x
  let x := if cpv ≠ load32 (x.1.globals .systemParams) 4 then
      let x := emulatedWrite l protocolVersionOffset .systemParams 4 4 x
      let x := emulatedWrite l firmwareVersionOffset .systemParams 8 4 x
      eachEmulated b (fun paramType index x => (emulatedSave b l paramType index x).2) x
    else x
  let x := eachEmulated b (fun paramType index x => (emulatedLoad b l paramType index x).2) x
  inMemory (fun f => f.set .systemParams (store32 (store32 (f.globals .systemParams) 4 cpv) 8 cfv)) x

/-! Runs. -/

/- After a reset main memory is something else. -/
inductive ParamCall (F : Type) where
  | init
  | save (paramType : UInt8) (index : Int)
  | load (paramType : UInt8) (index : Int)
  | change (others : State F)
  | reset (others : State F)

def ParamCall.Valid : ParamCall F → Prop
  | .save paramType index | .load paramType index => paramType = paramJointsSingle → JointIndex index
  | .init | .change _ | .reset _ => True

def paramCall (b : Board F) (f : State F) : ParamCall F → State F
  | .init => paramInit b f
  | .save paramType index => (paramSave b paramType index f).2
  | .load paramType index => (paramLoad b paramType index f).2
  | .change others | .reset others => { others with eeprom := f.eeprom }

def emulatedCall (b : Board F) (l : Layout) (x : Emulated F) : ParamCall F → Emulated F
  | .init => emulatedInit b l x
  | .save paramType index => (emulatedSave b l paramType index x).2
  | .load paramType index => (emulatedLoad b l paramType index x).2
  | .change others => ({ others with eeprom := x.1.eeprom }, x.2)
  | .reset others => ({ others with eeprom := x.1.eeprom }, DataEE.eepromInit l (DataEE.powered x.2))

def paramCalls (b : Board F) (f : State F) (calls : List (ParamCall F)) : State F := calls.foldl (paramCall b) f

def emulatedCalls (b : Board F) (l : Layout) (x : Emulated F) (calls : List (ParamCall F)) : Emulated F :=
  calls.foldl (emulatedCall b l) x

/-! Bytes. -/

def byteOf (values : Values) (a : Nat) : UInt8 := ((values (UInt16.ofNat a)).getD 0xFFFF).toUInt8

section Bytes
variable {l : Layout} {s : DataEE.State} {values : Values} {full : Bool}

theorem offsetLegal {a : Nat} (inside : a < 255) : UInt16.ofNat a < DataEE.dataEETotalSize := by
  rw [UInt16.lt_iff_toNat_lt, UInt16.toNat_ofNat']
  exact lt_of_le_of_lt (Nat.mod_le _ _) inside

theorem offsetNext (a : Nat) : UInt16.ofNat a + 1 = UInt16.ofNat (a + 1) := (UInt16.ofNat_add a 1).symm

theorem readByte (served : Served l s.memory values full) {a : Nat} (inside : a < 255) :
    (DataEE.dataEERead l (UInt16.ofNat a) s).1.toUInt8 = byteOf values a := by
  have legal := offsetLegal inside
  have value : (DataEE.dataEERead l (UInt16.ofNat a) s).1 = (values (UInt16.ofNat a)).getD 0xFFFF := by
    cases served with
    | room stored fits keeps =>
      rw [stored.readable.read (DataEE.legalKey legal), ← keeps _ legal]
      cases Journal.latest _ (UInt16.ofNat a).toUInt8 <;> rfl
    | full readable length keeps =>
      rw [readable.read (DataEE.legalKey legal), ← keeps _ legal]
      cases Journal.latest _ (UInt16.ofNat a).toUInt8 <;> rfl
  rw [value]
  rfl

theorem readBytes (size : Nat) {src : Nat} (served : Served l s.memory values full) (fits : src + size ≤ 255) :
    (DataEE.eepromReadLoop l size (UInt16.ofNat src) s).1 = load (byteOf values) src size ∧
      (DataEE.eepromReadLoop l size (UInt16.ofNat src) s).2.memory = s.memory := by
  induction size generalizing src s with
  | zero => exact ⟨rfl, rfl⟩
  | succ size ih =>
    have first := readByte served (show src < 255 by omega)
    have memory := DataEE.readMemory (l := l) (UInt16.ofNat src) s
    have next : Served l (DataEE.dataEERead l (UInt16.ofNat src) s).2.memory values full := by rwa [memory]
    have more : src + 1 + size ≤ 255 := by omega
    obtain ⟨rest, memory'⟩ := ih next more
    rw [DataEE.eepromReadLoop, offsetNext, loadCons]
    exact ⟨congrArg₂ List.cons first rest, memory'.trans memory⟩

theorem writeBytes (bytes : List UInt8) {dest : Nat} (served : Served l s.memory values false)
    (fits : dest + bytes.length ≤ 255) :
    ∃ now, Served l (DataEE.eepromWrite l (UInt16.ofNat dest) bytes s).memory now false ∧
      ∀ a < 255, byteOf now a = putBytes (byteOf values) dest bytes a := by
  induction bytes generalizing dest s values with
  | nil =>
    refine ⟨values, served, fun a _ => ?_⟩
    unfold putBytes
    split <;> rfl
  | cons c bytes ih =>
    have first := (served.write c.toUInt16 (offsetLegal (show dest < 255 by rw [List.length_cons] at fits; omega))).2.1
    have more : dest + 1 + bytes.length ≤ 255 := by rw [List.length_cons] at fits; omega
    obtain ⟨now, served', bytes'⟩ := ih first more
    refine ⟨now, ?_, fun a inside => ?_⟩
    · rw [DataEE.eepromWrite, offsetNext]
      exact served'
    · rw [bytes' a inside, putBytes, putBytes]
      by_cases here : a = dest
      · subst here
        rw [if_neg (by omega), if_pos (Nat.le_refl a), Nat.sub_self]
        have written : byteOf (Function.update values (UInt16.ofNat a) (some c.toUInt16)) a = c := by
          rw [byteOf, Function.update_self]
          exact UInt8.toUInt8_toUInt16 c
        exact written
      · have other : byteOf (Function.update values (UInt16.ofNat dest) (some c.toUInt16)) a = byteOf values a := by
          rw [byteOf, Function.update_of_ne]
          · rfl
          · intro same
            have value := congrArg UInt16.toNat same
            rw [UInt16.toNat_ofNat', UInt16.toNat_ofNat'] at value
            rw [List.length_cons] at fits
            omega
        by_cases behind : dest ≤ a
        · obtain ⟨i, rfl⟩ : ∃ i, a = dest + 1 + i := ⟨a - (dest + 1), by omega⟩
          rw [if_pos (by omega), if_pos behind, other, Nat.add_sub_cancel_left, show dest + 1 + i - dest = i + 1 by omega,
            List.getElem?_cons_succ]
        · rw [if_neg (by omega), if_neg behind, other]

theorem readAll {src size : Nat} (fits : src + size ≤ 255) :
    DataEE.eepromRead l (UInt16.ofNat src) (UInt16.ofNat size) s = DataEE.eepromReadLoop l size (UInt16.ofNat src) s := by
  have count : (UInt16.ofNat src + UInt16.ofNat size).toNat - (UInt16.ofNat src).toNat = size := by
    rw [UInt16.toNat_add, UInt16.toNat_ofNat', UInt16.toNat_ofNat']
    omega
  rw [DataEE.eepromRead, count]

end Bytes

/-! The two run in step. -/

structure Agrees (l : Layout) (x : Emulated F) (f : State F) : Prop where
  same : x.1 = f
  emulates : ∃ values, Served l x.2.memory values false ∧ ∀ a : Nat, a < 255 → f.eeprom a = byteOf values a

section Steps
variable {b : Board F} {l : Layout} {x : Emulated F} {f : State F}

theorem putLoad (m : Memory) (offset : Nat) (source : Memory) (src size : Nat) :
    putBytes m offset (load source src size) = copyBytes m offset source src size := by
  funext (a : Nat)
  unfold putBytes copyBytes
  by_cases behind : offset ≤ a
  · by_cases inside : a < offset + size
    · have here : a - offset < size := by omega
      rw [if_pos behind, if_pos ⟨behind, inside⟩, load, List.getElem?_map, List.getElem?_range here]
      rfl
    · rw [if_pos behind, if_neg fun both => inside both.2, List.getElem?_eq_none (by rw [loadLength]; omega)]
      rfl
  · rw [if_neg behind, if_neg fun both => behind both.1]

theorem copyCongr {m source other : Memory} {dest src size : Nat}
    (same : ∀ i : Nat, i < size → source (src + i) = other (src + i)) :
    copyBytes m dest source src size = copyBytes m dest other src size := by
  funext a
  unfold copyBytes
  split
  · rename_i inside
    exact same _ (Nat.sub_lt_left_of_lt_add inside.1 inside.2)
  · rfl

theorem Agrees.inMemory (agrees : Agrees l x f) {step : State F → State F} (kept : (step f).eeprom = f.eeprom) :
    Agrees l (inMemory step x) (step f) := by
  obtain ⟨values, served, bytes⟩ := agrees.emulates
  exact ⟨congrArg step agrees.same, values, served, fun a inside => by rw [kept, bytes a inside]⟩

theorem Agrees.read (agrees : Agrees l x f) (g : Global) (offset : Nat) {src size : Nat} (fits : src + size ≤ 255) :
    Agrees l (emulatedRead l g offset src size x) (eepromRead f g offset src size) := by
  obtain ⟨values, served, bytes⟩ := agrees.emulates
  obtain ⟨read, memory⟩ := readBytes size served fits
  have same : emulatedRead l g offset src size x = (x.1.set g (putBytes (x.1.globals g) offset (load (byteOf values) src size)),
      (DataEE.eepromReadLoop l size (UInt16.ofNat src) x.2).2) := by
    rw [← read, ← readAll fits]
    rfl
  rw [same]
  refine ⟨?_, values, ?_, bytes⟩
  · rw [agrees.same, putLoad, eepromRead, copyCongr fun i inside => (bytes (src + i) (by omega)).symm]
  · rw [memory]
    exact served

theorem Agrees.word (agrees : Agrees l x f) {src : Nat} (fits : src + 4 ≤ 255) :
    (emulatedWord l src x).1 = load32 f.eeprom src ∧ Agrees l (emulatedWord l src x).2 f := by
  obtain ⟨values, served, bytes⟩ := agrees.emulates
  obtain ⟨read, memory⟩ := readBytes 4 served fits
  have same : emulatedWord l src x = (load32 (putBytes (fun _ => 0) 0 (load (byteOf values) src 4)) 0,
      (x.1, (DataEE.eepromReadLoop l 4 (UInt16.ofNat src) x.2).2)) := by
    rw [← read, ← readAll fits]
    rfl
  have byte : ∀ i : Nat, i < 4 → putBytes (fun _ => 0) 0 (load (byteOf values) src 4) i = f.eeprom (src + i) := by
    intro i inside
    rw [putLoad, copyBytes, if_pos ⟨Nat.zero_le i, by omega⟩, bytes _ (by omega)]
    rfl
  rw [same]
  refine ⟨?_, agrees.same, values, ?_, bytes⟩
  · simp only [load32, load16, Nat.zero_add, byte 0 (by decide), byte 1 (by decide), byte 2 (by decide), byte (2 + 1) (by decide),
      Nat.add_zero, Nat.add_assoc]
  · rw [memory]
    exact served

theorem Agrees.write (agrees : Agrees l x f) (g : Global) (offset : Nat) {dest size : Nat} (fits : dest + size ≤ 255) :
    Agrees l (emulatedWrite l dest g offset size x) (eepromWrite f dest g offset size) := by
  obtain ⟨values, served, bytes⟩ := agrees.emulates
  obtain ⟨now, served', bytes'⟩ := writeBytes (load (x.1.globals g) offset size) served (by rwa [loadLength])
  refine ⟨?_, now, served', fun a inside => ?_⟩
  · rw [← agrees.same]
    rfl
  · have kept : (eepromWrite f dest g offset size).eeprom a = copyBytes f.eeprom dest (f.globals g) offset size a := rfl
    rw [kept, bytes' a inside, putLoad, agrees.same]
    unfold copyBytes
    split
    · rfl
    · exact bytes a inside

theorem Agrees.checkIndex (agrees : Agrees l x f) (index : Int) :
    Agrees l (Firmware.inMemory (fun f => checkIndex f index) x) (checkIndex f index) := by
  refine agrees.inMemory ?_
  unfold Firmware.checkIndex
  split <;> rfl

theorem jointFits {index : Int} (joint : JointIndex index) : jointSlot index + sizeofJointParamPacket.toNat ≤ 255 := by
  obtain ⟨i, rfl⟩ := Int.eq_ofNat_of_zero_le joint.1
  have inside : i < numJoints := Int.ofNat_lt.mp joint.2
  have two : numJoints = 2 := rfl
  rw [jointSlotEntry inside, show sizeofJointParamPacket.toNat = 25 from rfl]
  omega

theorem Agrees.load (agrees : Agrees l x f) {paramType : UInt8} {index : Int}
    (joint : paramType = paramJointsSingle → JointIndex index) :
    Agrees l (emulatedLoad b l paramType index x).2 (paramLoad b paramType index f).2 := by
  have set : ∀ {x : Emulated F} {f : State F}, Agrees l x f →
      Agrees l (Firmware.inMemory (fun f => (paramSet b paramType f).2) x) (paramSet b paramType f).2 :=
    fun agrees => agrees.inMemory (paramSetStore b paramType _)
  unfold emulatedLoad paramLoad
  split
  · exact set (agrees.read _ _ (by decide))
  split
  · rename_i joints
    have fits := jointFits (joint joints)
    have inside := (joint joints).1
    simp only [inside, if_true]
    exact set ((agrees.checkIndex index).read _ _ fits)
  split
  · exact set (agrees.read _ _ (by decide))
  split
  · exact set (agrees.read _ _ (by decide))
  · exact agrees

theorem Agrees.save (agrees : Agrees l x f) {paramType : UInt8} {index : Int}
    (joint : paramType = paramJointsSingle → JointIndex index) :
    Agrees l (emulatedSave b l paramType index x).2 (paramSave b paramType index f).2 := by
  unfold emulatedSave paramSave
  split
  · exact agrees.write _ _ (by decide)
  split
  · rename_i joints
    exact (agrees.checkIndex index).write _ _ (jointFits (joint joints))
  split
  · exact agrees.write _ _ (by decide)
  split
  · exact agrees.write _ _ (by decide)
  · exact agrees

theorem Agrees.each (agrees : Agrees l x f) {one : UInt8 → Int → Emulated F → Emulated F}
    {one' : UInt8 → Int → State F → State F}
    (step : ∀ {x : Emulated F} {f : State F} (paramType : UInt8) (index : Int),
      (paramType = paramJointsSingle → JointIndex index) →
      Agrees l x f → Agrees l (one paramType index x) (one' paramType index f)) :
    Agrees l (eachEmulated b one x) (eachParam b one' f) := by
  obtain ⟨drive, drive', sonar, sonar', sonar'', joints⟩ := classesApart
  have folded : ∀ (indices : List Nat), (∀ i ∈ indices, i < numJoints) → ∀ {x : Emulated F} {f : State F}, Agrees l x f →
      Agrees l (indices.foldl (fun x i => one paramJointsSingle i x) x)
        (indices.foldl (fun f i => one' paramJointsSingle i f) f) := by
    intro indices
    induction indices with
    | nil => exact fun _ _ _ agrees => agrees
    | cons i rest ih =>
      intro inside x f agrees
      exact ih (fun j member => inside j (List.mem_cons_of_mem _ member)) (step _ _
        (fun _ => ⟨Int.natCast_nonneg i, Int.ofNat_lt.mpr (inside i List.mem_cons_self)⟩) agrees)
  have system := step paramSystem (-1) (fun same => absurd same.symm joints) agrees
  have eachJoint := folded (List.range numJoints) (fun i member => List.mem_range.mp member) system
  have driven := step paramDrive (-1) (fun same => absurd same drive') eachJoint
  unfold eachEmulated eachParam
  cases b.sonar with
  | true => exact step paramSonar (-1) (fun same => absurd same sonar') driven
  | false => exact driven

theorem setStore (f : State F) (g : Global) (m : Memory) : (f.set g m).eeprom = f.eeprom := rfl

theorem Agrees.init (agrees : Agrees l x f) : Agrees l (emulatedInit b l x) (paramInit b f) := by
  obtain ⟨cpv, first⟩ := agrees.word (show protocolVersionOffset + 4 ≤ 255 by decide)
  obtain ⟨cfv, second⟩ := first.word (show firmwareVersionOffset + 4 ≤ 255 by decide)
  have loads : ∀ {x : Emulated F} {f : State F}, Agrees l x f →
      Agrees l (eachEmulated b (fun paramType index x => (emulatedLoad b l paramType index x).2) x)
        (eachParam b (fun paramType index f => (paramLoad b paramType index f).2) f) :=
    fun agrees => agrees.each fun _ _ joint agrees => agrees.load joint
  have saves : ∀ {x : Emulated F} {f : State F}, Agrees l x f →
      Agrees l (eachEmulated b (fun paramType index x => (emulatedSave b l paramType index x).2) x)
        (eachParam b (fun paramType index f => (paramSave b paramType index f).2) f) :=
    fun agrees => agrees.each fun _ _ joint agrees => agrees.save joint
  unfold emulatedInit paramInit
  simp only [cpv, cfv, second.same]
  generalize (emulatedWord l firmwareVersionOffset (emulatedWord l protocolVersionOffset x).2).2 = y at second
  split
  · have versions := (second.write .systemParams 4 (show protocolVersionOffset + 4 ≤ 255 by decide)).write .systemParams 8
      (show firmwareVersionOffset + 4 ≤ 255 by decide)
    exact (loads (saves versions)).inMemory (setStore _ _ _)
  · exact (loads second).inMemory (setStore _ _ _)

theorem Agrees.call (agrees : Agrees l x f) {call : ParamCall F} (valid : call.Valid) :
    Agrees l (emulatedCall b l x call) (paramCall b f call) := by
  cases call with
  | init => exact agrees.init
  | save paramType index => exact agrees.save valid
  | load paramType index => exact agrees.load valid
  | change others =>
    obtain ⟨same, emulates⟩ := agrees
    exact ⟨by rw [paramCall, ← same]; rfl, emulates⟩
  | reset others =>
    obtain ⟨same, values, served, bytes⟩ := agrees
    have kept : DataEE.Survived l (DataEE.powered x.2).memory values false := served.survived
    exact ⟨by rw [paramCall, ← same]; rfl, values, kept.start.2.served, bytes⟩

theorem Agrees.calls (agrees : Agrees l x f) (calls : List (ParamCall F)) (valid : ∀ call ∈ calls, call.Valid) :
    Agrees l (emulatedCalls b l x calls) (paramCalls b f calls) := by
  induction calls generalizing x f with
  | nil => exact agrees
  | cons call rest ih =>
    exact ih (agrees.call (valid call List.mem_cons_self)) fun c member => valid c (List.mem_cons_of_mem _ member)

end Steps

/- With the emulation the parameters are those of an EEPROM of bytes, over any calls and resets. -/
theorem paramsEmulated (b : Board F) (l : Layout) (m : DataEE.ProgramMemory) (blank : DataEE.Empty l m) (f : State F)
    (unwritten : ∀ a < 255, f.eeprom a = 0xFF) (calls : List (ParamCall F)) (valid : ∀ call ∈ calls, call.Valid) :
    (emulatedCalls b l (f, DataEE.eepromInit l (DataEE.restart m)) calls).1 = paramCalls b f calls := by
  have began : DataEE.Survived l (DataEE.restart m).memory (fun _ => none) false := .blank blank fun _ => rfl
  have agrees : Agrees l (f, DataEE.eepromInit l (DataEE.restart m)) f :=
    ⟨rfl, fun _ => none, began.start.2.served, fun a inside => (unwritten a inside).trans
      (show (0xFF : UInt8) = (0xFFFF : UInt16).toUInt8 by decide)⟩
  exact (agrees.calls calls valid).same

theorem paramsEmulatedBench : let f := powerOn bench fun _ => 0xFF
    (emulatedCalls bench DataEE.nowhere (f, DataEE.eepromInit DataEE.nowhere (DataEE.restart fun _ => DataEE.erased))
      [.init, .save paramJointsSingle 1, .reset f, .init]).1 =
        paramCalls bench f [.init, .save paramJointsSingle 1, .reset f, .init] :=
  paramsEmulated bench DataEE.nowhere _ (fun _ _ _ _ => rfl) _ (fun _ _ => rfl) _
    (by simp only [List.mem_cons, List.not_mem_nil, or_false, forall_eq_or_imp, forall_eq, ParamCall.Valid]; decide)

end OrazioLogger.Firmware
