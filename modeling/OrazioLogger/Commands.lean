import OrazioLogger.FirmwareComm

/-! What the packets of the host command. The handlers write bytes; a command acts on the few values that decide
whether the drive is enabled, what the joints do and what a communication cycle sends. -/
namespace OrazioLogger.Firmware
open ByteMemory OrazioPackets OrazioComm
open OrazioClient (load16 store16)

variable {F : Type}

/- The system parameters that are read at each cycle. -/
structure Settings where
  periodicPacketMask : UInt8
  watchdogCycles : UInt16
  deriving DecidableEq, Repr

def settingsAt (m : Memory) (a : Nat) : Settings := ⟨m (a + 20), load16 m (a + 21)⟩

structure JointCommand where
  mode : UInt8
  speed : UInt16
  deriving DecidableEq, Repr

def jointCommandAt (m : Memory) (a : Nat) : JointCommand := ⟨m (a + 7), load16 m (a + 5)⟩

structure Control where
  enabled : UInt8
  driveControlSeq : PacketSeq
  lastDriveControlSeq : PacketSeq
  settings : Settings
  saved : Settings
  joints : Nat → JointCommand
  sonarReady : Bool

def control (f : State F) : Control where
  enabled := enabled f
  driveControlSeq := driveControlSeq f
  lastDriveControlSeq := f.lastDriveControlSeq
  settings := settingsAt (f.globals .systemParams) 0
  saved := settingsAt f.eeprom systemParamOffset
  joints i := jointCommandAt (f.globals .jointControl) (jointControlAt i)
  sonarReady := f.sonarReady

inductive Command where
  | driveControl (seq : PacketSeq)
  | jointControl (joint : Nat) (command : JointCommand)
  | systemParam (settings : Settings)
  | driveParam
  | sonarParam
  | jointParam
  | refused
  | paramControl (action paramType : UInt8)
  deriving DecidableEq, Repr

/- The command of a packet that is not refused for its index. -/
def commandTaken (memory : Memory) (p : Addr) : PacketHandlerArgs → Command
  | .systemParam => .systemParam (settingsAt memory p)
  | .driveControl => .driveControl (load16 memory (p + 2))
  | .driveParam => .driveParam
  | .sonarParam => .sonarParam
  | .jointControl => .jointControl (signed8 (memory (p + 4))).toNat (jointCommandAt memory p)
  | .jointParam => .jointParam

def commandOf (memory : Memory) (p : Addr) : DeferredAction → Command
  | .handleParamCtl => .paramControl (memory (p + 4)) (memory (p + 5))
  | .handlePacket args => if refused args memory p then .refused else commandTaken memory p args

/- Initialising the drive takes the last command as an old one. -/
def Control.reinitialised (c : Control) : Control := { c with lastDriveControlSeq := c.driveControlSeq }

def loaded (sonar : Bool) (paramType : UInt8) (c : Control) : Control :=
  if paramType = paramSystem then { c with settings := c.saved, lastDriveControlSeq := c.driveControlSeq }
  else if paramType = paramDrive then c.reinitialised
  else if paramType = paramSonar ∧ sonar then { c with sonarReady := false }
  else c

def Command.effect (sonar : Bool) (c : Control) : Command → Control
  | .driveControl seq => { c with driveControlSeq := seq }
  | .jointControl joint command => { c with enabled := 0, joints := Function.update c.joints joint command }
  | .systemParam settings => { c with settings := settings, lastDriveControlSeq := c.driveControlSeq }
  | .driveParam => c.reinitialised
  | .sonarParam => { c with sonarReady := false }
  | .jointParam | .refused => c
  | .paramControl action paramType =>
    if action = paramLoadAction then loaded sonar paramType c
    else if action = paramSaveAction ∧ paramType = paramSystem then { c with saved := c.settings }
    else c

/-! A valid packet has the size of its type, and its index, if it is used, is not negative. -/

def argsSize : PacketHandlerArgs → PacketSize
  | .systemParam => sizeofSystemParamPacket
  | .driveControl => sizeofDifferentialDriveControlPacket
  | .driveParam => sizeofDifferentialDriveParamPacket
  | .sonarParam => sizeofSonarParamPacket
  | .jointControl => sizeofJointControlPacket
  | .jointParam => sizeofJointParamPacket

def ValidPacket (memory : Memory) (p : Addr) : DeferredAction → Prop
  | .handleParamCtl => memory (p + 5) = paramJointsSingle → (memory (p + 6)).toNat < numJoints
  | .handlePacket args => memory (p + 1) = argsSize args ∧ (maxIndex args ≠ none → 0 ≤ signed8 (memory (p + 4)))

instance (memory p action) : Decidable (ValidPacket memory p action) := by
  cases action <;> (unfold ValidPacket; infer_instance)

/-! What the values are read from. -/

def ControlByte : Global → Nat → Prop
  | .driveStatus, a => a = 40
  | .driveControl, a => a = 2 ∨ a = 3
  | .systemParams, a => 20 ≤ a ∧ a < 23
  | .jointControl, _ => True
  | _, _ => False

section Kept
variable {touched : Global → Nat → Prop} {f later : State F}

theorem controlOf (same : SameOutside touched f later) (quiet : ∀ g a, touched g a → ¬ ControlByte g a) :
    control later = { control f with
      lastDriveControlSeq := later.lastDriveControlSeq
      saved := settingsAt later.eeprom systemParamOffset
      sonarReady := later.sonarReady } := by
  have kept : ∀ g a, ControlByte g a → later.globals g a = f.globals g a := fun g a read =>
    same g a fun inside => quiet g a inside read
  have status : enabled later = enabled f := kept .driveStatus 40 rfl
  have seq : driveControlSeq later = driveControlSeq f := by
    rw [driveControlSeq, load16, kept .driveControl 2 (Or.inl rfl), kept .driveControl 3 (Or.inr rfl)]
    rfl
  have system : settingsAt (later.globals .systemParams) 0 = settingsAt (f.globals .systemParams) 0 := by
    have word : load16 (later.globals .systemParams) 21 = load16 (f.globals .systemParams) 21 := by
      rw [load16, load16, kept .systemParams 21 ⟨by omega, by omega⟩, kept .systemParams 22 ⟨by omega, by omega⟩]
    rw [settingsAt, settingsAt, Nat.zero_add, Nat.zero_add, word, kept .systemParams 20 ⟨by omega, by omega⟩]
  have joints : later.globals .jointControl = f.globals .jointControl := funext fun a => kept .jointControl a trivial
  simp only [control, status, seq, system, joints]

theorem SendsOnly.control {o later : Outside F} (only : SendsOnly o later) : control later.app = control o.app := by
  have apart : ∀ g a, Stamped g a → ¬ ControlByte g a := by
    intro g a stamped read
    cases g with
    | systemParams | driveStatus =>
      have header : a = 2 ∨ a = 3 := stamped
      simp only [ControlByte] at read
      omega
    | driveControl | jointControl => exact stamped
    | _ => exact read
  rw [controlOf only.globals apart, only.same]
  rfl

theorem JointsOnly.control (only : JointsOnly f later) : control later = control f := by
  have kept := controlOf only.globals fun g a written read => by
    rw [written.1] at read
    exact read
  rw [kept, only.same]
  rfl

theorem DriveOnly.control (only : DriveOnly f later) :
    control later = { control f with lastDriveControlSeq := later.lastDriveControlSeq } := by
  have kept := controlOf only.globals fun g a written read => by
    obtain ⟨rfl, low, high⟩ := written
    have flag : a = 40 := read
    omega
  rw [kept, only.same]
  rfl

theorem setRxSeqControl (memory : Memory) (p : Addr) : control (setRxSeq memory p f) = control f := by
  have written : SameOutside (fun g _ => g = .systemStatus) f (setRxSeq memory p f) :=
    (SameOutside.refl f).setWord _ rfl rfl
  exact controlOf written fun g a inside read => by
    rw [inside] at read
    exact read

theorem sonarInitControl : control (sonarInit f).2 = { control f with sonarReady := false } := rfl

theorem driveInitControl (b : Board F) : control (driveInit b f).2 = (control f).reinitialised := by
  rw [(driveInitOnly b f).control, driveInitSeq]
  rfl

theorem disabledControl : control (setByte f .driveStatus 40 0) = { control f with enabled := 0 } := by
  have status : enabled (setByte f .driveStatus 40 0) = 0 := setByteSame f .driveStatus 40 0
  simp only [control, status]
  rfl

end Kept

/-! What no packet changes: the counters of the watchdog and of the receiver, and a joint controller once it is bound. -/

def Counter (g : Global) (a : Nat) : Prop := g = .systemStatus ∧ (4 ≤ a ∧ a < 12 ∨ 16 ≤ a ∧ a < 20)

structure Spares (f later : State F) : Prop where
  globals : ∀ g a, Counter g a → later.globals g a = f.globals g a
  controllers : ∀ i, later.jointControllers i = f.jointControllers i ∨
    later.jointControllers i = jointControllerInit i .zeroed

section Spares
variable {f mid later : State F}

theorem Spares.refl (f : State F) : Spares f f := ⟨fun _ _ _ => rfl, fun _ => Or.inl rfl⟩

theorem Spares.trans (first : Spares f mid) (second : Spares mid later) : Spares f later := by
  refine ⟨fun g a counter => (second.globals g a counter).trans (first.globals g a counter), fun i => ?_⟩
  rcases second.controllers i with kept | reset
  · rw [kept]
    exact first.controllers i
  · exact Or.inr reset

theorem JointsOnly.spares (only : JointsOnly f later) : Spares f later :=
  ⟨fun g a counter => only.globals g a fun pin => absurd (counter.1.symm.trans pin.1) (by decide),
    only.controllers⟩

theorem DriveOnly.spares (only : DriveOnly f later) : Spares f later :=
  ⟨fun g a counter => only.globals g a fun written => absurd (counter.1.symm.trans written.1) (by decide),
    fun _ => Or.inl (by rw [only.same])⟩

theorem SendsOnly.spares {o later : Outside F} (only : SendsOnly o later) : Spares o.app later.app := by
  refine ⟨fun g a counter => only.globals g a fun stamped => ?_, fun _ => Or.inl (by rw [only.same])⟩
  obtain ⟨rfl, counter⟩ := counter
  have sent : a = 2 ∨ a = 3 ∨ 12 ≤ a ∧ a < 16 := stamped
  omega

/- A global other than the system status. -/
theorem setSpares {g : Global} (m : Memory) (f : State F) (other : g ≠ .systemStatus) : Spares f (f.set g m) :=
  ⟨fun h a counter => by rw [setOther f g m fun same => other (same ▸ counter.1)], fun _ => Or.inl rfl⟩

theorem setRxSeqSpares (memory : Memory) (p : Addr) (f : State F) : Spares f (setRxSeq memory p f) := by
  refine ⟨fun g a counter => setWordOutside _ _ _ _ fun here => ?_, fun _ => Or.inl rfl⟩
  obtain ⟨-, counter⟩ := counter
  have place := here.2
  omega

theorem driveInitSpares (b : Board F) (f : State F) : Spares f (driveInit b f).2 := (driveInitOnly b f).spares

theorem jointsInitSpares (b : Board F) (f : State F) : Spares f (jointsInit b f).2 := (jointsInitEnds b f).only.spares

theorem sonarInitSpares (f : State F) : Spares f (sonarInit f).2 := ⟨fun _ _ _ => rfl, fun _ => Or.inl rfl⟩

end Spares

/-! One packet. -/

theorem ValidPacket.indexed {memory : Memory} {p : Addr} {args : PacketHandlerArgs} {most : Int}
    (valid : ValidPacket memory p (.handlePacket args)) (table : maxIndex args = some most)
    (taken : refused args memory p = false) : ∃ i < numJoints, index args memory p = (i : Nat) := by
  have joints : most = numJoints := by
    cases args <;> simp only [maxIndex, Option.some.injEq, reduceCtorEq] at table <;> exact table.symm
  have low : 0 ≤ index args memory p := by
    simp only [index, table]
    exact valid.2 (by rw [table]; exact Option.some_ne_none most)
  have high : index args memory p < numJoints := by
    simpa only [refused, table, joints, ge_iff_le, decide_eq_false_iff_not, not_le] using taken
  exact ⟨(index args memory p).toNat, by omega, (Int.toNat_of_nonneg low).symm⟩

/- The place a valid packet is copied to: the start of its global, or the entry of its joint. -/
theorem ValidPacket.copyOffset {memory : Memory} {p : Addr} {args : PacketHandlerArgs}
    (valid : ValidPacket memory p (.handlePacket args)) (taken : refused args memory p = false) :
    ∃ offset : Nat, copyOffset args memory p = offset ∧ offset + (argsSize args).toNat ≤ (dest args).extent ∧
      (echoes args = true → PacketAt (dest args) offset) := by
  have size : (memory (p + 1)).toNat = (argsSize args).toNat := congrArg UInt8.toNat valid.1
  cases table : maxIndex args with
  | none =>
    refine ⟨0, by simp only [Firmware.copyOffset, table]; rfl, ?_⟩
    cases args with
    | systemParam | driveParam | sonarParam => exact ⟨by decide, fun _ => .single (by decide)⟩
    | driveControl => exact ⟨by decide, fun echoed => absurd echoed Bool.false_ne_true⟩
    | jointControl | jointParam => cases table
  | some most =>
    obtain ⟨i, inside, same⟩ := valid.indexed table taken
    refine ⟨(argsSize args).toNat * i, ?_, ?_, ?_⟩
    · simp only [Firmware.copyOffset, table, same, size]
      push_cast
      exact Int.mul_comm _ _
    · simp only [numJoints] at inside
      cases args with
      | jointControl =>
        change 8 * i + 8 ≤ 2 * 8
        omega
      | jointParam =>
        change 25 * i + 25 ≤ 2 * 25
        omega
      | systemParam | driveParam | sonarParam | driveControl => cases table
    · cases args with
      | jointParam => exact fun _ => .joint inside
      | jointControl => exact fun echoed => absurd echoed Bool.false_ne_true
      | systemParam | driveParam | sonarParam | driveControl => cases table

section Packet
variable {b : Board F} {o : Outside F} {p : Addr} {args : PacketHandlerArgs}

theorem copyPacketInside {memory : Memory} {offset : Nat} {f : State F} (size : memory (p + 1) = argsSize args)
    (inside : offset + (argsSize args).toNat ≤ (dest args).extent) :
    copyPacket args offset memory p f =
      f.set (dest args) (copyBytes (f.globals (dest args)) offset memory p (argsSize args).toNat) := by
  unfold copyPacket
  rw [size]
  have within : 0 ≤ (offset : Int) ∧ (offset : Int) + (argsSize args).toNat ≤ (dest args).extent :=
    ⟨Int.natCast_nonneg _, by exact_mod_cast inside⟩
  simp only [if_pos within, if_pos within.1, Int.toNat_natCast]

/- The state in which the answer of a packet that is not refused is sent. -/
def handled (b : Board F) (args : PacketHandlerArgs) (p : Addr) (o : Outside F) : PacketStatus × State F :=
  let f := setRxSeq o.memory p o.app
  let f := if disablesDrive args then setByte f .driveStatus 40 0 else f
  postCopy b args (copyPacket args (copyOffset args o.memory p) o.memory p f)

theorem handlePacketRefused (taken : refused args o.memory p = true) :
    handlePacket b args p o =
      (.genericError, sendResponse p .genericError (withApp o (setRxSeq o.memory p o.app))) := by
  unfold handlePacket
  rw [if_pos (by exact taken)]

theorem handlePacketTaken (taken : refused args o.memory p = false) :
    handlePacket b args p o = (.success, sendResponse p (handled b args p o).1
      (if echoes args then echo args (copyOffset args o.memory p) p (withApp o (handled b args p o).2)
        else withApp o (handled b args p o).2)) := by
  have free : ¬ refused args (withApp o (setRxSeq o.memory p o.app)).memory p = true := by
    rw [Bool.not_eq_true]
    exact taken
  unfold handlePacket
  dsimp only
  rw [if_neg free]
  rfl

theorem copyBytesInside {m source : Memory} {start src size i : Nat} (inside : i < size) :
    copyBytes m start source src size (start + i) = source (src + i) := by
  unfold copyBytes
  rw [if_pos ⟨Nat.le_add_right _ _, Nat.add_lt_add_left inside _⟩, Nat.add_sub_cancel_left]

theorem copyBytesWord {m source : Memory} {start src size i : Nat} (inside : i + 1 < size) :
    load16 (copyBytes m start source src size) (start + i) = load16 source (src + i) := by
  rw [load16, load16, copyBytesInside (Nat.lt_of_succ_lt inside), Nat.add_assoc, copyBytesInside inside, Nat.add_assoc]

theorem copyBytesOutside {m source : Memory} {start src size a : Nat} (outside : a < start ∨ start + size ≤ a) :
    copyBytes m start source src size a = m a := by
  unfold copyBytes
  exact if_neg fun inside => outside.elim (Nat.not_lt_of_ge inside.1) (Nat.not_le_of_gt inside.2)

/- A copy that control does not read. -/
theorem setControl {g : Global} (m : Memory) (f : State F) (quiet : ∀ a, ¬ ControlByte g a) :
    control (f.set g m) = control f := by
  have elsewhere : SameOutside (fun other _ => other = g) f (f.set g m) := fun other a outside => by
    rw [setOther f g m outside]
  exact controlOf elsewhere fun other a same read => quiet a (same ▸ read)

theorem systemParamsControl (m : Memory) (f : State F) :
    control (f.set .systemParams m) = { control f with settings := settingsAt m 0 } := rfl

theorem driveControlControl (m : Memory) (f : State F) :
    control (f.set .driveControl m) = { control f with driveControlSeq := load16 m 2 } := rfl

theorem jointControlControl (m : Memory) (f : State F) : control (f.set .jointControl m) =
    { control f with joints := fun i => jointCommandAt m (jointControlAt i) } := rfl

/- The record of one joint replaced by a packet. -/
theorem jointCommandCopied (m source : Memory) (p i j : Nat) :
    jointCommandAt (copyBytes m (8 * i) source p 8) (jointControlAt j) =
      Function.update (fun j => jointCommandAt m (jointControlAt j)) i (jointCommandAt source p) j := by
  rw [jointControlEntry]
  by_cases same : j = i
  · subst same
    rw [Function.update_self, jointCommandAt, copyBytesInside (by decide), copyBytesWord (by decide)]
    rfl
  · have outside : ∀ k : Nat, k < 8 → copyBytes m (8 * i) source p 8 (8 * j + k) = m (8 * j + k) := fun k small =>
      copyBytesOutside (by omega)
    rw [Function.update_of_ne same, jointCommandAt, load16, outside 7 (by decide), outside 5 (by decide),
      Nat.add_assoc, outside 6 (by decide)]
    rfl

theorem handledControl (valid : ValidPacket o.memory p (.handlePacket args)) (taken : refused args o.memory p = false) :
    control (handled b args p o).2 = (commandTaken o.memory p args).effect b.sonar (control o.app) := by
  obtain ⟨offset, place, inside, -⟩ := valid.copyOffset taken
  have numbered := setRxSeqControl (f := o.app) o.memory p
  unfold handled
  dsimp only
  rw [place, copyPacketInside valid.1 inside, ← numbered]
  generalize setRxSeq o.memory p o.app = f
  cases args with
  | systemParam =>
    obtain rfl : offset = 0 := Int.ofNat_inj.mp place.symm
    let m := copyBytes (f.globals .systemParams) 0 o.memory p 24
    have mask : m (0 + 20) = o.memory (p + 20) := copyBytesInside (by decide)
    have cycles : load16 m (0 + 21) = load16 o.memory (p + 21) := copyBytesWord (by decide)
    have settings : settingsAt m 0 = settingsAt o.memory p := by
      rw [settingsAt, mask, cycles]
      rfl
    change control (driveInit b (f.set .systemParams m)).2 = _
    rw [driveInitControl, systemParamsControl, settings]
    rfl
  | driveControl =>
    obtain rfl : offset = 0 := Int.ofNat_inj.mp place.symm
    let m := copyBytes (f.globals .driveControl) 0 o.memory p 12
    have seq : load16 m (0 + 2) = load16 o.memory (p + 2) := copyBytesWord (by decide)
    change control (f.set .driveControl m) = _
    rw [driveControlControl, ← Nat.zero_add 2, seq]
    rfl
  | driveParam =>
    let m := copyBytes (f.globals .driveParams) offset o.memory p 38
    change control (driveInit b (f.set .driveParams m)).2 = _
    rw [driveInitControl, setControl m f fun _ => id]
    rfl
  | sonarParam =>
    let m := copyBytes (f.globals .sonarParams) offset o.memory p 12
    change control (sonarInit (f.set .sonarParams m)).2 = _
    rw [sonarInitControl, setControl m f fun _ => id]
    rfl
  | jointControl =>
    obtain ⟨i, joint, same⟩ := valid.indexed rfl taken
    have number : (signed8 (o.memory (p + 4))).toNat = i := by
      have signed : signed8 (o.memory (p + 4)) = i := same
      rw [signed, Int.toNat_natCast]
    have entry : offset = 8 * i := by
      have size : o.memory (p + 1) = 8 := valid.1
      have product : copyOffset .jointControl o.memory p = i * 8 := by
        simp only [copyOffset, maxIndex, same, size]
        rfl
      rw [product] at place
      omega
    let disabled := setByte f .driveStatus 40 0
    let m := copyBytes (disabled.globals .jointControl) (8 * i) o.memory p 8
    subst entry
    change control (disabled.set .jointControl m) = _
    rw [jointControlControl, disabledControl]
    simp only [commandTaken, Command.effect, number]
    congr 1
    funext j
    exact jointCommandCopied _ _ _ _ _
  | jointParam =>
    let m := copyBytes (f.globals .jointParams) offset o.memory p 25
    change control (jointsInit b (f.set .jointParams m)).2 = _
    rw [(jointsInitEnds b _).only.control, setControl m f fun _ => id]
    rfl

theorem faultedSpares (f : State F) : Spares f f.faulted := ⟨fun _ _ _ => rfl, fun _ => Or.inl rfl⟩

theorem copyPacketSpares (args : PacketHandlerArgs) (offset : Int) (memory : Memory) (p : Addr) (f : State F) :
    Spares f (copyPacket args offset memory p f) := by
  have other : dest args ≠ .systemStatus := by cases args <;> decide
  unfold copyPacket
  dsimp only
  split <;> split
  · exact setSpares _ f other
  · exact (faultedSpares f).trans (setSpares _ f.faulted other)
  · exact .refl f
  · exact faultedSpares f

theorem postCopySpares (b : Board F) (args : PacketHandlerArgs) (f : State F) : Spares f (postCopy b args f).2 := by
  cases args with
  | driveControl | jointControl => exact .refl f
  | systemParam | driveParam => exact driveInitSpares b f
  | sonarParam => exact sonarInitSpares f
  | jointParam => exact jointsInitSpares b f

theorem handledSpares (b : Board F) (args : PacketHandlerArgs) (p : Addr) (o : Outside F) :
    Spares o.app (handled b args p o).2 := by
  unfold handled
  refine .trans ?_ (postCopySpares b args _)
  refine .trans ?_ (copyPacketSpares args _ _ p _)
  refine (setRxSeqSpares o.memory p o.app).trans ?_
  split
  · exact setSpares _ _ (by decide)
  · exact .refl _

/- What a handler leaves behind: its packet where it was and the effect of its command. -/
structure Obeys (b : Board F) (command : Command) (o later : Outside F) : Prop where
  memory : later.memory = o.memory
  control : control later.app = command.effect b.sonar (control o.app)
  spares : Spares o.app later.app

theorem Obeys.answered {command : Command} {mid later : Outside F} (obeys : Obeys b command o mid)
    (only : SendsOnly mid later) : Obeys b command o later :=
  ⟨only.memory.trans obeys.memory, only.control.trans obeys.control, obeys.spares.trans only.spares⟩

end Packet

/-! A parameter request. -/

def parameters : List Global := [.systemParams, .jointParams, .driveParams, .sonarParams]

section ParamControl
variable {b : Board F} {f : State F} {o : Outside F} {p : Addr}

theorem checkIndexControl (index : Int) : control (checkIndex f index) = control f := by
  unfold checkIndex
  split <;> rfl

theorem eepromReadControl {g : Global} (offset src size : Nat) (quiet : ∀ a, ¬ ControlByte g a) :
    control (eepromRead f g offset src size) = control f := setControl _ f quiet

theorem paramSetControl (paramType : UInt8) : control (paramSet b paramType f).2 =
    if paramType = paramSystem ∨ paramType = paramDrive then (control f).reinitialised
    else if paramType = paramSonar ∧ b.sonar then { control f with sonarReady := false }
    else control f := by
  unfold paramSet
  by_cases system : paramType = paramSystem
  · simp only [system, if_true, true_or, driveInitControl]
  by_cases joints : paramType = paramJointsSingle
  · rw [if_neg system, if_pos joints, (jointsInitEnds b f).only.control, joints]
    rfl
  by_cases drive : paramType = paramDrive
  · rw [if_neg system, if_neg joints, if_pos drive, if_pos (Or.inr drive), driveInitControl]
  rw [if_neg system, if_neg joints, if_neg drive, if_neg (not_or.mpr ⟨system, drive⟩)]
  split <;> rfl

theorem paramLoadControl (paramType : UInt8) (index : Int) :
    control (paramLoad b paramType index f).2 = loaded b.sonar paramType (control f) := by
  unfold paramLoad loaded
  by_cases system : paramType = paramSystem
  · have mask : copyBytes (f.globals .systemParams) 0 f.eeprom 40 24 (0 + 20) = f.eeprom (40 + 20) :=
      copyBytesInside (by decide)
    have cycles : load16 (copyBytes (f.globals .systemParams) 0 f.eeprom 40 24) (0 + 21) = load16 f.eeprom (40 + 21) :=
      copyBytesWord (by decide)
    have settings : settingsAt (copyBytes (f.globals .systemParams) 0 f.eeprom 40 24) 0 = settingsAt f.eeprom 40 := by
      rw [settingsAt, mask, cycles]
      rfl
    rw [if_pos system, if_pos system, paramSetControl, if_pos (Or.inl system)]
    change (control (f.set .systemParams (copyBytes (f.globals .systemParams) 0 f.eeprom 40 24))).reinitialised = _
    rw [systemParamsControl, settings]
    rfl
  by_cases joints : paramType = paramJointsSingle
  · rw [if_neg system, if_pos joints, joints]
    have read : ∀ g : State F, control (if 0 ≤ index then eepromRead g .jointParams (jointParam index.toNat) (jointSlot index)
      sizeofJointParamPacket.toNat else g) = control g := by
      intro g
      split
      · exact eepromReadControl _ _ _ fun _ => id
      · rfl
    dsimp only
    rw [paramSetControl, read, checkIndexControl]
    rfl
  by_cases drive : paramType = paramDrive
  · rw [if_neg system, if_neg joints, if_pos drive, if_neg system, if_pos drive, paramSetControl, if_pos (Or.inr drive),
      eepromReadControl _ _ _ fun _ => id]
  rw [if_neg system, if_neg joints, if_neg drive, if_neg system, if_neg drive]
  by_cases sonar : paramType = paramSonar ∧ b.sonar
  · rw [if_pos sonar, if_pos sonar, paramSetControl, if_neg (not_or.mpr ⟨system, drive⟩), if_pos sonar,
      eepromReadControl _ _ _ fun _ => id]
  · rw [if_neg sonar, if_neg sonar]

/- A slot of the EEPROM other than that of the system parameters. -/
theorem eepromWriteControl {g : Global} {slot offset size : Nat} (apart : 64 ≤ slot) :
    control (eepromWrite f slot g offset size) = control f := by
  have kept : ∀ a, a < 64 → copyBytes f.eeprom slot (f.globals g) offset size a = f.eeprom a := fun a small =>
    copyBytesOutside (Or.inl (Nat.lt_of_lt_of_le small apart))
  have saved : settingsAt (copyBytes f.eeprom slot (f.globals g) offset size) 40 = settingsAt f.eeprom 40 := by
    rw [settingsAt, load16, kept 60 (by decide), kept 61 (by decide), kept 62 (by decide)]
    rfl
  change { control f with saved := settingsAt (copyBytes f.eeprom slot (f.globals g) offset size) 40 } = _
  rw [saved]
  rfl

theorem paramSaveControl (paramType : UInt8) {index : Int} (valid : paramType = paramJointsSingle → JointIndex index) :
    control (paramSave b paramType index f).2 =
      if paramType = paramSystem then { control f with saved := (control f).settings } else control f := by
  unfold paramSave
  by_cases system : paramType = paramSystem
  · have settings : settingsAt (copyBytes f.eeprom 40 (f.globals .systemParams) 0 24) 40 =
        settingsAt (f.globals .systemParams) 0 := by
      have mask : copyBytes f.eeprom 40 (f.globals .systemParams) 0 24 (40 + 20) = f.globals .systemParams (0 + 20) :=
        copyBytesInside (by decide)
      have cycles : load16 (copyBytes f.eeprom 40 (f.globals .systemParams) 0 24) (40 + 21) =
          load16 (f.globals .systemParams) (0 + 21) := copyBytesWord (by decide)
      rw [settingsAt, mask, cycles]
      rfl
    rw [if_pos system, if_pos system]
    change { control f with saved := settingsAt (copyBytes f.eeprom 40 (f.globals .systemParams) 0 24) 40 } = _
    rw [settings]
    rfl
  rw [if_neg system, if_neg system]
  by_cases joints : paramType = paramJointsSingle
  · obtain ⟨low, high⟩ := valid joints
    have slot : 64 ≤ jointSlot index := by
      have place : jointSlot index = ((114 + 25 * index) % 65536).toNat := rfl
      simp only [numJoints] at high
      have small : (114 + 25 * index) % 65536 = 114 + 25 * index := Int.emod_eq_of_lt (by omega) (by omega)
      rw [place, small]
      omega
    rw [if_pos joints, eepromWriteControl slot, checkIndexControl]
  rw [if_neg joints]
  split
  · exact eepromWriteControl (by decide)
  split
  · exact eepromWriteControl (by decide)
  · rfl

theorem ValidPacket.jointIndex {memory : Memory} {p : Addr} (valid : ValidPacket memory p .handleParamCtl)
    (joints : memory (p + 5) = paramJointsSingle) : JointIndex (signed8 (memory (p + 6))) := by
  have small : (memory (p + 6)).toNat < 2 := valid joints
  have below : memory (p + 6) < 128 := UInt8.lt_iff_toNat_lt.mpr (Nat.lt_trans small (by decide))
  simp only [JointIndex, signed8, if_pos below, numJoints]
  omega

/- The state in which a request is answered. -/
def requested (b : Board F) (p : Addr) (o : Outside F) : PacketStatus × State F :=
  let action := o.memory (p + 4)
  let paramType := o.memory (p + 5)
  let f := setRxSeq o.memory p o.app
  if action = paramRequest then (.success, f)
  else if action = paramLoadAction then paramLoad b paramType (signed8 (o.memory (p + 6))) f
  else if action = paramSaveAction then paramSave b paramType (signed8 (o.memory (p + 6))) f
  else (.genericError, f)

theorem requestedControl (valid : ValidPacket o.memory p .handleParamCtl) :
    control (requested b p o).2 = (commandOf o.memory p .handleParamCtl).effect b.sonar (control o.app) := by
  have numbered := setRxSeqControl (f := o.app) o.memory p
  unfold requested
  change _ = if o.memory (p + 4) = paramLoadAction then _ else _
  dsimp only
  by_cases request : o.memory (p + 4) = paramRequest
  · rw [if_pos request, request]
    exact numbered
  by_cases load : o.memory (p + 4) = paramLoadAction
  · rw [if_neg request, if_pos load, if_pos load, paramLoadControl, numbered]
  rw [if_neg request, if_neg load, if_neg load]
  by_cases save : o.memory (p + 4) = paramSaveAction
  · rw [if_pos save, paramSaveControl _ valid.jointIndex, numbered]
    simp only [save, true_and]
  · rw [if_neg save, if_neg fun both => save both.1]
    exact numbered

theorem eepromReadSpares {g : Global} (offset src size : Nat) (f : State F) (other : g ≠ .systemStatus) :
    Spares f (eepromRead f g offset src size) := setSpares _ f other

theorem eepromWriteSpares (slot : Nat) (g : Global) (offset size : Nat) (f : State F) :
    Spares f (eepromWrite f slot g offset size) := ⟨fun _ _ _ => rfl, fun _ => Or.inl rfl⟩

theorem checkIndexSpares (index : Int) (f : State F) : Spares f (checkIndex f index) := by
  unfold checkIndex
  split
  · exact .refl f
  · exact ⟨fun _ _ _ => rfl, fun _ => Or.inl rfl⟩

theorem paramSetSpares (b : Board F) (paramType : UInt8) (f : State F) : Spares f (paramSet b paramType f).2 := by
  unfold paramSet
  split
  · exact driveInitSpares b f
  split
  · exact jointsInitSpares b f
  split
  · exact driveInitSpares b f
  split
  · exact sonarInitSpares f
  · exact .refl f

theorem paramLoadSpares (b : Board F) (paramType : UInt8) (index : Int) (f : State F) :
    Spares f (paramLoad b paramType index f).2 := by
  unfold paramLoad
  split
  · exact (eepromReadSpares _ _ _ f (by decide)).trans (paramSetSpares b _ _)
  split
  · refine .trans ?_ (paramSetSpares b _ _)
    split
    · exact (checkIndexSpares index f).trans (eepromReadSpares _ _ _ _ (by decide))
    · exact checkIndexSpares index f
  split
  · exact (eepromReadSpares _ _ _ f (by decide)).trans (paramSetSpares b _ _)
  split
  · exact (eepromReadSpares _ _ _ f (by decide)).trans (paramSetSpares b _ _)
  · exact .refl f

theorem paramSaveSpares (b : Board F) (paramType : UInt8) (index : Int) (f : State F) :
    Spares f (paramSave b paramType index f).2 := by
  unfold paramSave
  split
  · exact eepromWriteSpares _ _ _ _ f
  split
  · exact (checkIndexSpares index f).trans (eepromWriteSpares _ _ _ _ _)
  split
  · exact eepromWriteSpares _ _ _ _ f
  split
  · exact eepromWriteSpares _ _ _ _ f
  · exact .refl f

theorem requestedSpares (b : Board F) (p : Addr) (o : Outside F) : Spares o.app (requested b p o).2 := by
  have numbered := setRxSeqSpares o.memory p o.app
  unfold requested
  dsimp only
  split
  · exact numbered
  split
  · exact numbered.trans (paramLoadSpares b _ _ _)
  split
  · exact numbered.trans (paramSaveSpares b _ _ _)
  · exact numbered

theorem targetPacket {g : Global} {offset : Nat} (valid : ValidPacket o.memory p .handleParamCtl)
    (found : target b (o.memory (p + 5)) (o.memory (p + 6)) = some (g, offset)) : PacketAt g offset := by
  unfold target at found
  split at found
  · cases found
    exact .single (by decide)
  split at found
  · rename_i joints
    cases found
    exact .joint (valid joints)
  split at found
  · cases found
    exact .single (by decide)
  split at found
  · cases found
    exact .single (by decide)
  · cases found

/- The parameters asked for are sent back in front of the answer, if there are any. -/
theorem handleParamCtlSilent (none : target b (o.memory (p + 5)) (o.memory (p + 6)) = none) :
    (handleParamCtl b p o).2 = sendResponse p (requested b p o).1 (withApp o (requested b p o).2) := by
  unfold handleParamCtl
  simp only [none]
  rfl

theorem handleParamCtlTold {packet : Global × Nat} (found : target b (o.memory (p + 5)) (o.memory (p + 6)) = some packet) :
    (handleParamCtl b p o).2 = sendResponse p (requested b p o).1
      (sendPacket packet.1 packet.2 (withApp o (requested b p o).2)).2 := by
  unfold handleParamCtl
  simp only [found]
  rfl

theorem targetParameter {g : Global} {offset : Nat} {paramType index : UInt8} (found : target b paramType index = some (g, offset)) :
    g ∈ parameters := by
  unfold target at found
  split_ifs at found <;> cases found <;> decide

end ParamControl

/-! Any handler: what it does to the firmware, what it echoes, what it answers. -/

/- The result in the response. -/
def outcome (b : Board F) (action : DeferredAction) (p : Addr) (o : Outside F) : PacketStatus :=
  match action with
  | .handleParamCtl => (requested b p o).1
  | .handlePacket args => if refused args o.memory p then .genericError else (handled b args p o).1

/- The firmware when the handler begins to send. -/
def prepared (b : Board F) (action : DeferredAction) (p : Addr) (o : Outside F) : State F :=
  match action with
  | .handleParamCtl => (requested b p o).2
  | .handlePacket args => if refused args o.memory p then setRxSeq o.memory p o.app else (handled b args p o).2

def echoPlace (b : Board F) (action : DeferredAction) (memory : Memory) (p : Addr) : Option (Global × Nat) :=
  match action with
  | .handleParamCtl => target b (memory (p + 5)) (memory (p + 6))
  | .handlePacket args =>
    if refused args memory p then none
    else if echoes args then some (dest args, (copyOffset args memory p).toNat)
    else none

def sendEcho (place : Option (Global × Nat)) (o : Outside F) : Outside F :=
  match place with
  | none => o
  | some (g, offset) => (sendPacket g offset o).2

section Handler
variable {b : Board F} {o : Outside F} {p : Addr} {action : DeferredAction}

theorem actAnswers (valid : ValidPacket o.memory p action) : act b action p o =
    sendResponse p (outcome b action p o) (sendEcho (echoPlace b action o.memory p) (withApp o (prepared b action p o))) := by
  cases action with
  | handleParamCtl =>
    unfold act outcome prepared echoPlace
    cases found : target b (o.memory (p + 5)) (o.memory (p + 6)) with
    | none => exact handleParamCtlSilent found
    | some place => exact handleParamCtlTold found
  | handlePacket args =>
    unfold act outcome prepared echoPlace
    dsimp only
    cases taken : refused args o.memory p with
    | true =>
      rw [handlePacketRefused taken]
      rfl
    | false =>
      rw [handlePacketTaken taken]
      cases again : echoes args with
      | false => rfl
      | true =>
        obtain ⟨offset, place, -⟩ := valid.copyOffset taken
        simp only [place, Bool.false_eq_true, if_false, if_true, Int.toNat_natCast]
        unfold echo
        rw [if_pos (Int.natCast_nonneg offset), Int.toNat_natCast]
        rfl

theorem echoPlaceAt {g : Global} {offset : Nat} (valid : ValidPacket o.memory p action)
    (place : echoPlace b action o.memory p = some (g, offset)) : g ∈ parameters ∧ PacketAt g offset := by
  cases action with
  | handleParamCtl => exact ⟨targetParameter place, targetPacket valid place⟩
  | handlePacket args =>
    unfold echoPlace at place
    dsimp only at place
    split at place
    · cases place
    rename_i taken
    split at place
    · rename_i again
      obtain ⟨n, same, -, packet⟩ := valid.copyOffset (Bool.eq_false_iff.mpr taken)
      rw [same, Int.toNat_natCast] at place
      cases place
      refine ⟨?_, packet again⟩
      cases args with
      | systemParam | driveParam | sonarParam | jointParam => decide
      | driveControl | jointControl => cases again
    · cases place

theorem sendEchoOnly (valid : ValidPacket o.memory p action) (later : Outside F) :
    SendsOnly later (sendEcho (echoPlace b action o.memory p) later) := by
  cases place : echoPlace b action o.memory p with
  | none => exact .refl later
  | some told => exact sendPacketOnly later (echoPlaceAt valid place).2

theorem actSends (valid : ValidPacket o.memory p action) :
    SendsOnly (withApp o (prepared b action p o)) (act b action p o) := by
  rw [actAnswers valid]
  exact (sendEchoOnly valid _).trans (sendResponseOnly p _ _)

theorem preparedObeys (valid : ValidPacket o.memory p action) :
    Obeys b (commandOf o.memory p action) o (withApp o (prepared b action p o)) := by
  cases action with
  | handleParamCtl => exact ⟨rfl, requestedControl valid, requestedSpares b p o⟩
  | handlePacket args =>
    change Obeys b (if refused args o.memory p then .refused else commandTaken o.memory p args) o
      (withApp o (if refused args o.memory p then setRxSeq o.memory p o.app else (handled b args p o).2))
    cases taken : refused args o.memory p with
    | true => exact ⟨rfl, setRxSeqControl _ _, setRxSeqSpares _ _ _⟩
    | false => exact ⟨rfl, handledControl valid taken, handledSpares b args p o⟩

theorem actObeys (valid : ValidPacket o.memory p action) : Obeys b (commandOf o.memory p action) o (act b action p o) :=
  (preparedObeys valid).answered (actSends valid)

end Handler

end OrazioLogger.Firmware
