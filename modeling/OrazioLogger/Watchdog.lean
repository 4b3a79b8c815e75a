import OrazioLogger.Batch

/-! The watchdog: when it expires, and what it leaves of the control when it does. -/
namespace OrazioLogger.Firmware
open ByteMemory OrazioPackets OrazioComm
open OrazioClient (load16 store16 load16Store16)

variable {F : Type}

theorem signed16ToNat (v : UInt16) : signed16 v = if v.toNat < 32768 then (v.toNat : Int) else v.toNat - 65536 := by
  simp only [signed16, UInt16.lt_iff_toNat_lt]
  rfl

theorem signed16OfInt16 {v : Int} (low : -32768 ≤ v) (high : v < 32768) : signed16 (ofInt16 v) = v := by
  have word : (ofInt16 v).toNat = (v % 65536).toNat := UInt16.toNat_ofNat_of_lt' (by
    change (v % 65536).toNat < 65536
    omega)
  rw [signed16ToNat, word]
  split <;> omega

theorem signed16Range (v : UInt16) : -32768 ≤ signed16 v ∧ signed16 v < 32768 := by
  have bound := v.toNat_lt
  rw [signed16ToNat]
  split <;> omega

/- Every joint controller points to the control record of its joint. -/
def Bound (f : State F) : Prop := ∀ i < numJoints, (f.jointControllers i).control = some i
instance (f : State F) : Decidable (Bound f) := by unfold Bound; infer_instance

def Expires (cycles : UInt16) (count : Int) : Prop := cycles ≠ 0 ∧ (count = 0 ∨ count = 1)
instance (cycles count) : Decidable (Expires cycles count) := by unfold Expires; infer_instance

def Control.expired (c : Control) : Control :=
  { c with
    enabled := 0
    joints := fun i => if i < numJoints then { c.joints i with mode := jointDisabled } else c.joints i }

section Watchdog
variable {f later : State F}

@[simp] theorem watchdogCountSet (f : State F) (v : UInt16) : watchdogCount (setWatchdogCount f v) = signed16 v := by
  rw [watchdogCount, setWatchdogCount, setWord, setSame, load16Store16]

theorem controlWatchdogCycles (f : State F) : (control f).settings.watchdogCycles = watchdogCycles f := rfl

theorem disableJointBound {i : Nat} (bound : (f.jointControllers i).control = some i) :
    disableJoint f i = setController (setByte f .jointControl (jointControlAt i + 7) jointDisabled) i
      { f.jointControllers i with output := 0 } := by
  unfold disableJoint
  rw [bound]
  rfl

/- One record of the table with its mode overwritten. -/
theorem jointCommandDisabled (m : Memory) (i j : Nat) :
    jointCommandAt (store m (jointControlAt i + 7) jointDisabled) (jointControlAt j) =
      if j = i then { jointCommandAt m (jointControlAt i) with mode := jointDisabled }
      else jointCommandAt m (jointControlAt j) := by
  have apart : ∀ k : Nat, k < 8 → j ≠ i ∨ k ≠ 7 → 8 * j + k ≠ 8 * i + 7 := fun k small other => by omega
  simp only [jointCommandAt, load16, jointControlEntry]
  split
  · rename_i same
    subst same
    rw [storeSame, storeOther _ (apart 5 (by decide) (Or.inr (by decide))), Nat.add_assoc,
      storeOther _ (apart 6 (by decide) (Or.inr (by decide)))]
  · rename_i other
    rw [storeOther _ (apart 7 (by decide) (Or.inl other)), storeOther _ (apart 5 (by decide) (Or.inl other)),
      Nat.add_assoc, storeOther _ (apart 6 (by decide) (Or.inl other))]

/- Both joints are disabled when both controllers are bound. -/
theorem jointsDisableBound (bound : Bound f) : jointsDisable f =
    setController (setByte (setController (setByte f .jointControl 7 jointDisabled) 0 { f.jointControllers 0 with output := 0 })
      .jointControl 15 jointDisabled) 1 { f.jointControllers 1 with output := 0 } := by
  have first := disableJointBound (bound 0 (by decide))
  change disableJoint (disableJoint f 0) 1 = _
  rw [first]
  exact disableJointBound (bound 1 (by decide))

theorem jointsDisableControl (bound : Bound f) : control (jointsDisable f) = { control f with
    joints := fun i => if i < numJoints then { (control f).joints i with mode := jointDisabled } else (control f).joints i } := by
  rw [jointsDisableBound bound]
  let m := store (store (f.globals .jointControl) (jointControlAt 0 + 7) jointDisabled) (jointControlAt 1 + 7) jointDisabled
  have joints : (fun i => jointCommandAt m (jointControlAt i)) = fun i =>
      if i < numJoints then { (control f).joints i with mode := jointDisabled } else (control f).joints i := by
    funext i
    simp only [m, jointCommandDisabled]
    rcases i with _ | _ | i
    · simp [control, numJoints]
    · simp [control, numJoints]
    · have beyond : ¬ i + 1 + 1 < 2 := by omega
      simp [control, numJoints, beyond]
  change { control f with joints := fun i => jointCommandAt m (jointControlAt i) } = _
  rw [joints]

theorem watchdogExpireControl (bound : Bound f) : control (watchdogExpire f) = (control f).expired := by
  unfold watchdogExpire
  rw [jointsDisableControl (f := setByte f .driveStatus 40 0) bound, disabledControl]
  rfl

theorem watchdogHandleControl (bound : Expires (watchdogCycles f) (watchdogCount f) → Bound f) : control (watchdogHandle f) =
    if Expires (watchdogCycles f) (watchdogCount f) then (control f).expired else control f := by
  have range : -32768 ≤ watchdogCount f ∧ watchdogCount f < 32768 := signed16Range _
  unfold watchdogHandle
  by_cases off : watchdogCycles f = 0
  · rw [if_pos off, if_neg fun expires => expires.1 off]
    rfl
  rw [if_neg off]
  by_cases positive : watchdogCount f > 0
  · have less : signed16 (ofInt16 (watchdogCount f - 1)) = watchdogCount f - 1 :=
      signed16OfInt16 (by omega) (by omega)
    simp only [if_pos positive, watchdogCountSet, less]
    by_cases last : watchdogCount f = 1
    · rw [if_pos (by omega), if_pos ⟨off, Or.inr last⟩]
      exact watchdogExpireControl (bound ⟨off, Or.inr last⟩)
    · rw [if_neg (by omega), if_neg fun expires => by have := expires.2; omega]
      rfl
  · simp only [if_neg positive]
    by_cases zero : watchdogCount f = 0
    · rw [if_pos zero, if_pos ⟨off, Or.inl zero⟩]
      exact watchdogExpireControl (bound ⟨off, Or.inl zero⟩)
    · rw [if_neg zero, if_neg fun expires => by have := expires.2; omega]

/- Without the watchdog nothing happens, bound or not. -/
theorem watchdogHandleOff (off : watchdogCycles f = 0) : control (watchdogHandle f) = control f := by
  unfold watchdogHandle
  rw [if_pos off]
  rfl

end Watchdog

/-! A communication cycle on the control. -/

/- How many of the bytes complete a frame. -/
def acceptedFrames (m : Machine F) : List UInt8 → Nat
  | [] => 0
  | c :: rest => (if (DeferredPacketHandler.rxByte m c).1 = .syncChecksum then 1 else 0) + acceptedFrames (receiveByte m c) rest

def accepted (line : Line) (m : Machine F) : Nat :=
  acceptedFrames (updateApp m (setWord · .systemStatus 4 line.rxBufferFull)) line.received

/- The count that `Orazio_watchdogHandle` finds: `cycles` after a reset. -/
def countFound (cycles : UInt16) (frames : Nat) (count : Int) : Int :=
  if frames % 65536 = 0 then count else signed16 cycles

section Cycle
variable {b : Board F} {turn : Turn} {s : Main F} {m : Machine F}

theorem wordElsewhere (f : State F) {offset other : Nat} (v : UInt16) (apart : other + 1 < offset ∨ offset + 1 < other) :
    load16 ((setWord f .systemStatus offset v).globals .systemStatus) other = load16 (f.globals .systemStatus) other := by
  rw [load16, load16, setWordOutside _ _ _ _ fun here => ?_, setWordOutside _ _ _ _ fun here => ?_]
  · have place := here.2
    omega
  · have place := here.2
    omega

theorem receiveByteCounts (m : Machine F) (c : UInt8) : rxPackets (receiveByte m c).outside.app =
    rxPackets m.outside.app + if (DeferredPacketHandler.rxByte m c).1 = .syncChecksum then 1 else 0 := by
  have received : rxPackets (DeferredPacketHandler.rxByte m c).2.outside.app = rxPackets m.outside.app := rfl
  unfold receiveByte
  generalize DeferredPacketHandler.rxByte m c = result at received
  obtain ⟨status, later⟩ := result
  dsimp only at received ⊢
  by_cases whole : status = .syncChecksum
  · subst whole
    rw [if_pos rfl, if_pos rfl, if_neg (by decide)]
    change rxPackets (setWord later.outside.app .systemStatus 6 (rxPackets later.outside.app + 1)) = _
    rw [rxPackets, setWord, setSame, load16Store16, received]
  · rw [if_neg whole, if_neg whole]
    rw [UInt16.add_zero, ← received]
    split
    · exact wordElsewhere later.outside.app _ (Or.inl (by decide))
    · rfl

theorem receivedCounts (bytes : List UInt8) (m : Machine F) : rxPackets (bytes.foldl receiveByte m).outside.app =
    rxPackets m.outside.app + UInt16.ofNat (acceptedFrames m bytes) := by
  induction bytes generalizing m with
  | nil => simp [acceptedFrames]
  | cons c rest ih =>
    rw [List.foldl_cons, ih, receiveByteCounts, acceptedFrames, UInt16.ofNat_add, UInt16.add_assoc]
    split <;> rfl

theorem beginEpochCounts (line : Line) (m : Machine F) : rxPackets (beginEpoch line m).outside.app =
    rxPackets m.outside.app + UInt16.ofNat (accepted line m) := by
  have flushed := receivedCounts line.received (updateApp m (setWord · .systemStatus 4 line.rxBufferFull))
  have started : rxPackets (updateApp m (setWord · .systemStatus 4 line.rxBufferFull)).outside.app = rxPackets m.outside.app :=
    wordElsewhere m.outside.app _ (Or.inr (by decide))
  rw [started] at flushed
  refine Eq.trans ?_ flushed
  have numbered : SameOutside (fun g a => g = .systemStatus ∧ a = 22) (flushInputBuffers line m).outside.app
      (beginEpoch line m).outside.app := SameOutside.setByte (.refl _) _ ⟨rfl, rfl⟩
  exact numbered.word (by simp) (by simp)

theorem Spares.rxPackets {f later : State F} (spares : Spares f later) : rxPackets later = rxPackets f := by
  rw [Firmware.rxPackets, load16, spares.globals _ 6 ⟨rfl, by omega⟩, spares.globals _ 7 ⟨rfl, by omega⟩]
  rfl

theorem Spares.watchdogCount {f later : State F} (spares : Spares f later) : watchdogCount later = watchdogCount f := by
  rw [Firmware.watchdogCount, load16, spares.globals _ 18 ⟨rfl, by omega⟩, spares.globals _ 19 ⟨rfl, by omega⟩]
  rfl

theorem Spares.bound {f later : State F} (spares : Spares f later) (bound : Bound f) : Bound later := by
  intro i inside
  rcases spares.controllers i with kept | reset
  · rw [kept]
    exact bound i inside
  · rw [reset]
    rfl

theorem TickOnly.rxPackets {f later : State F} (only : TickOnly f later) : rxPackets later = rxPackets f :=
  only.globals.word (by simp [TickWritten]) (by simp [TickWritten])

theorem TickOnly.watchdogCount {f later : State F} (only : TickOnly f later) : watchdogCount later = watchdogCount f :=
  congrArg signed16 (only.globals.word (by simp [TickWritten]) (by simp [TickWritten]))

theorem TickOnly.bound {f later : State F} (only : TickOnly f later) (bound : Bound f) : Bound later :=
  fun i inside => (only.controls i).trans (bound i inside)

theorem beginEpochBound (line : Line) (m : Machine F) (bound : Bound m.outside.app) : Bound (beginEpoch line m).outside.app := by
  intro i inside
  rw [(beginEpochOnly line m).same]
  exact bound i inside

theorem beginEpochWatchdogCount (line : Line) (m : Machine F) :
    watchdogCount (beginEpoch line m).outside.app = watchdogCount m.outside.app :=
  congrArg signed16 ((beginEpochOnly line m).globals.word (by simp [ReceptionWritten]) (by simp [ReceptionWritten]))

/- What follows on the reception leaves the counters alone. -/
theorem commHandleSpares (tabled : Tabled b.sonar m) (valid : ValidBatch b turn.line m) :
    Spares (beginEpoch turn.line m).outside.app (completeEpoch b (processPending b (beginEpoch turn.line m))).outside.app :=
  (processPendingProcessed (beginEpochTabled turn.line tabled) valid).spares.trans (sendPeriodicOnly b _).spares

theorem flushOutputRxPackets (line : Line) (m : Machine F) :
    rxPackets (flushOutputBuffers line m).2.outside.app = rxPackets m.outside.app :=
  wordElsewhere m.outside.app _ (Or.inl (by decide))

theorem flushOutputWatchdogCount (line : Line) (m : Machine F) :
    watchdogCount (flushOutputBuffers line m).2.outside.app = watchdogCount m.outside.app :=
  congrArg signed16 (wordElsewhere m.outside.app _ (Or.inr (by decide)))

theorem commHandleRxPackets (tabled : Tabled b.sonar m) (valid : ValidBatch b turn.line m) :
    rxPackets (commHandle b turn.line m).2.outside.app = rxPackets m.outside.app + UInt16.ofNat (accepted turn.line m) := by
  unfold commHandle
  rw [flushOutputRxPackets, (commHandleSpares tabled valid).rxPackets, beginEpochCounts]

theorem commHandleWatchdogCount (tabled : Tabled b.sonar m) (valid : ValidBatch b turn.line m) :
    watchdogCount (commHandle b turn.line m).2.outside.app = watchdogCount m.outside.app := by
  unfold commHandle
  rw [flushOutputWatchdogCount, (commHandleSpares tabled valid).watchdogCount, beginEpochWatchdogCount]

theorem commHandleBound (tabled : Tabled b.sonar m) (valid : ValidBatch b turn.line m) (bound : Bound m.outside.app) :
    Bound (commHandle b turn.line m).2.outside.app := by
  have kept := (commHandleSpares tabled valid).bound (beginEpochBound turn.line m bound)
  exact fun i inside => kept i inside

theorem sameCounter (v : UInt16) (n : Nat) : v = v + UInt16.ofNat n ↔ n % 65536 = 0 := by
  rw [UInt16.left_eq_add, ← UInt16.toNat_inj]
  exact Iff.rfl

/- What `Orazio_watchdogHandle` finds at the end of a cycle. -/
structure Found (b : Board F) (turn : Turn) (s : Main F) (f : State F) : Prop where
  control : control f = effects b.sonar (control s.app) (batch b turn.line s.machine)
  count : watchdogCount f = countFound (watchdogCycles f) (accepted turn.line s.machine) (watchdogCount s.app)
  bound : Bound s.app → Bound f

theorem communicateFound (tabled : Tabled b.sonar s.machine) (valid : ValidBatch b turn.line s.machine) :
    ∃ f, (communicate b turn (rxPackets s.app) s).app = watchdogHandle f ∧ Found b turn s f := by
  let handled : Main F := { s with machine := (commHandle b turn.line s.machine).2 }
  have five := (ticksOnly b turn 5 handled).app
  have control5 : control (ticks b turn 5 handled).app = effects b.sonar (control s.app) (batch b turn.line s.machine) :=
    five.control.trans (commHandleControl tabled valid)
  have rx5 : rxPackets (ticks b turn 5 handled).app = rxPackets s.app + UInt16.ofNat (accepted turn.line s.machine) :=
    five.rxPackets.trans (commHandleRxPackets tabled valid)
  have count5 : watchdogCount (ticks b turn 5 handled).app = watchdogCount s.app :=
    five.watchdogCount.trans (commHandleWatchdogCount tabled valid)
  have bound5 : Bound s.app → Bound (ticks b turn 5 handled).app := fun bound =>
    five.bound (commHandleBound tabled valid bound)
  let reset : Main F := if rxPackets s.app ≠ rxPackets (ticks b turn 5 handled).app
    then (ticks b turn 5 handled).update watchdogReset else ticks b turn 5 handled
  have six := (ticksOnly b turn 6 reset).app
  have controlReset : control reset.app = control (ticks b turn 5 handled).app := by
    simp only [reset]
    split <;> rfl
  have cycles : watchdogCycles (ticks b turn 6 reset).app = watchdogCycles (ticks b turn 5 handled).app :=
    congrArg (fun c => c.settings.watchdogCycles) (six.control.trans controlReset)
  refine ⟨(ticks b turn 6 reset).app, rfl, six.control.trans (controlReset.trans control5), ?_, fun bound => ?_⟩
  · rw [cycles, six.watchdogCount, countFound]
    simp only [reset, rx5]
    by_cases quiet : accepted turn.line s.machine % 65536 = 0
    · rw [if_neg (not_not.mpr ((sameCounter _ _).mpr quiet)), if_pos quiet]
      exact count5
    · rw [if_pos fun same => quiet ((sameCounter _ _).mp same), if_neg quiet]
      exact watchdogCountSet _ _
  · refine six.bound ?_
    simp only [reset]
    split
    · exact bound5 bound
    · exact bound5 bound

end Cycle

end OrazioLogger.Firmware
