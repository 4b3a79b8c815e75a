import OrazioLogger.PacketHeaders

/-! The parameter store: each class of parameters, and each joint, has bytes of its own in the EEPROM, behind the
words of the versions. -/
namespace OrazioLogger.Firmware
open ByteMemory OrazioPackets
open OrazioClient (load16 load32)

variable {F : Type}

/- Where parameters stand in RAM and in the EEPROM. -/
structure Place where
  global : Global
  offset : Nat
  slot : Nat
  deriving DecidableEq, Repr

def Place.size (place : Place) : Nat := place.global.size.toNat

/- The index counts for the joints only. -/
def placeOf (b : Board F) (paramType : UInt8) (index : Int) : Option Place :=
  if paramType = paramSystem then some ⟨.systemParams, 0, systemParamOffset⟩
  else if paramType = paramJointsSingle then
    if JointIndex index then some ⟨.jointParams, jointParam index.toNat, jointSlot index⟩ else none
  else if paramType = paramDrive then some ⟨.driveParams, 0, driveParamOffset⟩
  else if paramType = paramSonar ∧ b.sonar then some ⟨.sonarParams, 0, sonarParamOffset⟩
  else none

/- Everything but the EEPROM may be changed between saving and loading. -/
inductive StoreCall (F : Type) where
  | save (paramType : UInt8) (index : Int)
  | load (paramType : UInt8) (index : Int)
  | change (others : State F)

def StoreCall.Valid (b : Board F) : StoreCall F → Prop
  | .save paramType index | .load paramType index => (placeOf b paramType index).isSome
  | .change _ => True

instance (b : Board F) (c : StoreCall F) : Decidable (c.Valid b) := by
  cases c <;> (unfold StoreCall.Valid; infer_instance)

/- Saves the same parameters. -/
def StoreCall.Saves (paramType : UInt8) (index : Int) : StoreCall F → Prop
  | .save other otherIndex => other = paramType ∧ (paramType = paramJointsSingle → otherIndex = index)
  | .load .. | .change _ => False

instance (paramType : UInt8) (index : Int) (c : StoreCall F) : Decidable (c.Saves paramType index) := by
  cases c <;> (unfold StoreCall.Saves; infer_instance)

/- Saves to byte `a` of the EEPROM. -/
def StoreCall.Writes (b : Board F) (a : Nat) : StoreCall F → Prop
  | .save paramType index => ∃ place, placeOf b paramType index = some place ∧ Inside place.slot place.size a
  | .load .. | .change _ => False

def storeCall (b : Board F) (f : State F) : StoreCall F → State F
  | .save paramType index => (paramSave b paramType index f).2
  | .load paramType index => (paramLoad b paramType index f).2
  | .change others => { others with eeprom := f.eeprom }

def storeCalls (b : Board F) (f : State F) (calls : List (StoreCall F)) : State F := calls.foldl (storeCall b) f

/- The slots, as the offsets of the source come out. -/
inductive Slot (b : Board F) : UInt8 → Int → Place → Prop where
  | system {i : Int} : Slot b paramSystem i ⟨.systemParams, 0, 40⟩
  | drive {i : Int} : Slot b paramDrive i ⟨.driveParams, 0, 64⟩
  | sonar {i : Int} (used : b.sonar = true) : Slot b paramSonar i ⟨.sonarParams, 0, 102⟩
  | joint {i : Nat} (inside : i < numJoints) : Slot b paramJointsSingle (i : Int) ⟨.jointParams, jointParam i, 114 + 25 * i⟩

section Store
variable {b : Board F} {f : State F} {paramType other : UInt8} {index otherIndex : Int} {place elsewhere : Place}

theorem slotOf (found : placeOf b paramType index = some place) : Slot b paramType index place := by
  unfold placeOf at found
  split at found
  · rename_i system
    cases found
    rw [system]
    exact .system
  split at found
  · rename_i joints
    split at found
    · rename_i joint
      cases found
      obtain ⟨i, rfl⟩ := Int.eq_ofNat_of_zero_le joint.1
      have inside : i < numJoints := Int.ofNat_lt.mp joint.2
      rw [joints, Int.toNat_natCast, jointSlotEntry inside]
      exact .joint inside
    · contradiction
  split at found
  · rename_i drive
    cases found
    rw [drive]
    exact .drive
  split at found
  · rename_i sonar
    cases found
    rw [sonar.1]
    exact .sonar sonar.2
  · contradiction

/- Different parameters never share a byte, and none reaches the versions. -/
theorem slotsApart (first : Slot b paramType index place) (second : Slot b other otherIndex elsewhere)
    (different : ¬ (other = paramType ∧ (paramType = paramJointsSingle → otherIndex = index))) :
    ByteMemory.Disjoint place.slot place.size elsewhere.slot elsewhere.size := by
  have sizes : Global.systemParams.size.toNat = 24 ∧ Global.driveParams.size.toNat = 38 ∧
      Global.sonarParams.size.toNat = 12 ∧ Global.jointParams.size.toNat = 25 := ⟨rfl, rfl, rfl, rfl⟩
  obtain ⟨system, drive, sonar, joint⟩ := sizes
  cases first with
  | system | drive | sonar =>
    cases second with
    | system | drive | sonar =>
      first
      | exact absurd ⟨rfl, fun joints => absurd joints (by decide)⟩ different
      | simp only [ByteMemory.Disjoint, Place.size, system, drive, sonar]; omega
    | joint inside => simp only [ByteMemory.Disjoint, Place.size, system, drive, sonar, joint]; omega
  | @joint i inside =>
    cases second with
    | system | drive | sonar => simp only [ByteMemory.Disjoint, Place.size, system, drive, sonar, joint]; omega
    | @joint j inside' =>
      have apart : i ≠ j := by
        rintro rfl
        exact different ⟨rfl, fun _ => rfl⟩
      simp only [ByteMemory.Disjoint, Place.size, joint]
      omega

theorem slotBehindVersions (slot : Slot b paramType index place) : 40 ≤ place.slot := by
  cases slot with
  | system | drive | sonar => decide
  | joint => exact Nat.le_add_right_of_le (by decide)

theorem classesApart : paramDrive ≠ paramSystem ∧ paramDrive ≠ paramJointsSingle ∧ paramSonar ≠ paramSystem ∧
    paramSonar ≠ paramJointsSingle ∧ paramSonar ≠ paramDrive ∧ paramJointsSingle ≠ paramSystem := by decide

theorem paramSavePlace (found : placeOf b paramType index = some place) (f : State F) :
    ∃ g : State F, paramSave b paramType index f = (.success, eepromWrite g place.slot place.global place.offset place.size) ∧
      g.eeprom = f.eeprom ∧ g.globals = f.globals := by
  obtain ⟨drive, drive', sonar, sonar', sonar'', joints⟩ := classesApart
  unfold paramSave
  cases slotOf found with
  | system => exact ⟨f, if_pos rfl, rfl, rfl⟩
  | drive =>
    rw [if_neg drive, if_neg drive']
    exact ⟨f, if_pos rfl, rfl, rfl⟩
  | sonar used =>
    rw [if_neg sonar, if_neg sonar', if_neg sonar'']
    exact ⟨f, if_pos ⟨rfl, used⟩, rfl, rfl⟩
  | @joint i inside =>
    have within : JointIndex (i : Int) := ⟨Int.natCast_nonneg i, Int.ofNat_lt.mpr inside⟩
    rw [if_neg joints, if_pos rfl, checkIndex, if_pos within, jointSlotEntry inside]
    exact ⟨f, rfl, rfl, rfl⟩

theorem paramLoadPlace (found : placeOf b paramType index = some place) (f : State F) :
    paramLoad b paramType index f =
      (.success, (paramSet b paramType (eepromRead f place.global place.offset place.slot place.size)).2) := by
  obtain ⟨drive, drive', sonar, sonar', sonar'', joints⟩ := classesApart
  unfold paramLoad
  cases slotOf found with
  | system => exact if_pos rfl
  | drive =>
    rw [if_neg drive, if_neg drive']
    exact if_pos rfl
  | sonar used =>
    rw [if_neg sonar, if_neg sonar', if_neg sonar'']
    exact if_pos ⟨rfl, used⟩
  | @joint i inside =>
    have within : JointIndex (i : Int) := ⟨Int.natCast_nonneg i, Int.ofNat_lt.mpr inside⟩
    rw [if_neg joints, if_pos rfl]
    dsimp only
    rw [if_pos within.1, checkIndex, if_pos within, jointSlotEntry inside]
    rfl

theorem paramSetStore (b : Board F) (paramType : UInt8) (f : State F) : (paramSet b paramType f).2.eeprom = f.eeprom := by
  have drive : (driveInit b f).2.eeprom = f.eeprom := by rw [(driveInitOnly b f).same]
  have joints : (jointsInit b f).2.eeprom = f.eeprom := by rw [(jointsInitEnds b f).only.same]
  unfold paramSet
  split
  · exact drive
  split
  · exact joints
  split
  · exact drive
  split
  · rfl
  · rfl

/- A byte that no call saves to. -/
theorem storeCallOutside {call : StoreCall F} (valid : call.Valid b) {a : Nat} (outside : ¬ call.Writes b a) :
    (storeCall b f call).eeprom a = f.eeprom a := by
  cases call with
  | save paramType index =>
    obtain ⟨place, found⟩ := Option.isSome_iff_exists.mp valid
    obtain ⟨g, wrote, eeprom, -⟩ := paramSavePlace found f
    simp only [storeCall]
    rw [wrote, ← eeprom]
    exact if_neg fun inside => outside ⟨place, found, inside⟩
  | load paramType index =>
    obtain ⟨place, found⟩ := Option.isSome_iff_exists.mp valid
    simp only [storeCall]
    rw [paramLoadPlace found, paramSetStore]
    rfl
  | change => rfl

theorem storeCallsOutside (calls : List (StoreCall F)) (valid : ∀ call ∈ calls, call.Valid b) {a : Nat}
    (outside : ∀ call ∈ calls, ¬ call.Writes b a) : (storeCalls b f calls).eeprom a = f.eeprom a := by
  induction calls generalizing f with
  | nil => rfl
  | cons call rest ih =>
    have later := ih (f := storeCall b f call) (fun c member => valid c (List.mem_cons_of_mem _ member))
      fun c member => outside c (List.mem_cons_of_mem _ member)
    exact later.trans (storeCallOutside (valid call List.mem_cons_self) (outside call List.mem_cons_self))

/- Neither the bytes of other parameters nor the versions are saved to. -/
theorem elsewhereWrites (found : placeOf b paramType index = some place) {call : StoreCall F}
    (others : ¬ call.Saves paramType index) {a : Nat} (inside : Inside place.slot place.size a) : ¬ call.Writes b a := by
  intro writes
  cases call with
  | save other otherIndex =>
    obtain ⟨elsewhere, second, here⟩ := writes
    have apart := slotsApart (slotOf second) (slotOf found) fun same =>
      others ⟨same.1.symm, fun joints => (same.2 (same.1.symm.trans joints)).symm⟩
    exact disjointOutside apart inside here
  | load | change => exact writes

theorem versionWrites (b : Board F) (call : StoreCall F) {a : Nat} (low : a < 40) : ¬ call.Writes b a := by
  intro writes
  cases call with
  | save =>
    obtain ⟨place, found, here⟩ := writes
    have behind := slotBehindVersions (slotOf found)
    have start := here.1
    omega
  | load | change => exact writes

theorem load32Congr {m k : Memory} {a : Nat} (same : ∀ x, Inside a 4 x → m x = k x) : load32 m a = load32 k a := by
  have byte : ∀ i, i < 4 → m (a + i) = k (a + i) := fun i small => same _ ⟨Nat.le_add_right _ _, Nat.add_lt_add_left small a⟩
  have first : load16 m a = load16 k a := by
    rw [load16, load16, byte 1 (by decide)]
    exact congrArg (fun c : UInt8 => c.toUInt16 ||| _) (byte 0 (by decide))
  have second : load16 m (a + 2) = load16 k (a + 2) := by
    rw [load16, load16, byte 2 (by decide)]
    exact congrArg (fun c : UInt8 => _ ||| (c.toUInt16 <<< 8)) (byte 3 (by decide))
  rw [load32, load32, first, second]

end Store

/- Loading is copying the structure as it stood at the latest save of the same parameters, whatever happened since;
and the versions stay. -/
theorem loadsLatestSave (b : Board F) (f : State F) (before between : List (StoreCall F)) (paramType : UInt8) (index : Int)
    (place : Place) (found : placeOf b paramType index = some place) (validBefore : ∀ call ∈ before, call.Valid b)
    (validBetween : ∀ call ∈ between, call.Valid b) (latest : ∀ call ∈ between, ¬ call.Saves paramType index) :
    let saved := storeCalls b f before
    let later := storeCalls b f (before ++ .save paramType index :: between)
    paramLoad b paramType index later = (.success, (paramSet b paramType (later.set place.global
      (copyBytes (later.globals place.global) place.offset (saved.globals place.global) place.offset place.size))).2) ∧
    load32 later.eeprom protocolVersionOffset = load32 f.eeprom protocolVersionOffset ∧
    load32 later.eeprom firmwareVersionOffset = load32 f.eeprom firmwareVersionOffset := by
  have valid : ∀ call ∈ before ++ .save paramType index :: between, call.Valid b := by
    intro call member
    rcases List.mem_append.mp member with early | rest
    · exact validBefore call early
    rcases List.mem_cons.mp rest with rfl | late
    · exact Option.isSome_iff_exists.mpr ⟨place, found⟩
    · exact validBetween call late
  have versions : ∀ a, a < 40 → (storeCalls b f (before ++ .save paramType index :: between)).eeprom a = f.eeprom a :=
    fun a low => storeCallsOutside _ valid fun call _ => versionWrites b call low
  refine ⟨?_, load32Congr fun x inside => versions x (lt_trans inside.2 (by decide)),
    load32Congr fun x inside => versions x (lt_of_lt_of_le inside.2 (by decide))⟩
  rw [paramLoadPlace found]
  have split : storeCalls b f (before ++ .save paramType index :: between) =
      storeCalls b (storeCall b (storeCalls b f before) (.save paramType index)) between := List.foldl_append
  rw [split]
  obtain ⟨g, wrote, -, globals⟩ := paramSavePlace found (storeCalls b f before)
  have stored : ∀ a, Inside place.slot place.size a →
      (storeCalls b (storeCall b (storeCalls b f before) (.save paramType index)) between).eeprom a =
        (storeCalls b f before).globals place.global (place.offset + (a - place.slot)) := by
    intro a inside
    rw [storeCallsOutside between validBetween fun call member => elsewhereWrites found (latest call member) inside]
    simp only [storeCall]
    rw [wrote, ← globals]
    exact if_pos inside
  generalize storeCalls b (storeCall b (storeCalls b f before) (.save paramType index)) between = later at stored
  have read : copyBytes (later.globals place.global) place.offset later.eeprom place.slot place.size =
      copyBytes (later.globals place.global) place.offset ((storeCalls b f before).globals place.global) place.offset
        place.size := by
    funext a
    unfold copyBytes
    split
    · rename_i inside
      have here : a - place.offset < place.size := Nat.sub_lt_left_of_lt_add inside.1 inside.2
      rw [stored _ ⟨Nat.le_add_right _ _, Nat.add_lt_add_left here _⟩, Nat.add_sub_cancel_left]
    · rfl
  unfold eepromRead
  rw [read]

/- Joint 0 saved, then the system and the other joint, and the tables overwritten. -/
theorem jointReloaded : let f := powerOn bench fun _ => 0xFF
    let saved := storeCalls bench f [.load paramDrive (-1)]
    let later := storeCalls bench f ([.load paramDrive (-1)] ++ .save paramJointsSingle 0 ::
      [.save paramSystem (-1), .save paramJointsSingle 1, .change { f with globals := fun _ _ => 0 }])
    paramLoad bench paramJointsSingle 0 later = (.success, (paramSet bench paramJointsSingle (later.set .jointParams
      (copyBytes (later.globals .jointParams) 0 (saved.globals .jointParams) 0 25))).2) ∧
    load32 later.eeprom protocolVersionOffset = load32 f.eeprom protocolVersionOffset ∧
    load32 later.eeprom firmwareVersionOffset = load32 f.eeprom firmwareVersionOffset :=
  loadsLatestSave bench (powerOn bench fun _ => 0xFF) [.load paramDrive (-1)]
    [.save paramSystem (-1), .save paramJointsSingle 1, .change { powerOn bench (fun _ => 0xFF) with globals := fun _ _ => 0 }]
    paramJointsSingle 0 ⟨.jointParams, 0, 114⟩ rfl (by intro call member; rw [List.mem_singleton.mp member]; decide)
    (by simp only [List.mem_cons, List.not_mem_nil, or_false, forall_eq_or_imp, forall_eq]; decide)
    (by simp only [List.mem_cons, List.not_mem_nil, or_false, forall_eq_or_imp, forall_eq]; decide)

end OrazioLogger.Firmware
