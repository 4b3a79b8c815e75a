import OrazioLogger.Support.Countdown
import OrazioLogger.ControlPackets

/-! Runs of the main loop under the watchdog: as long as nothing is accepted its count runs down, and from then on the
drive and the joints stay off. -/
namespace OrazioLogger.Firmware
open ByteMemory OrazioPackets OrazioComm DeferredPacketHandler Countdown
open OrazioClient (load16 store16 load16Store16)

variable {F : Type}

def Safe (f : State F) : Prop :=
  enabled f = 0 ∧ ∀ i < numJoints, jointMode f i = jointDisabled ∧ (f.jointControllers i).output = 0

/-! What the watchdog sees of the rest of the loop. -/

structure Carries (f later : State F) : Prop where
  cycles : watchdogCycles later = watchdogCycles f
  count : watchdogCount later = watchdogCount f
  rxPackets : rxPackets later = rxPackets f
  bound : Bound f → Bound later

section Carries
variable {b : Board F} {f mid later : State F}

theorem Carries.refl (f : State F) : Carries f f := ⟨rfl, rfl, rfl, id⟩

theorem Carries.trans (first : Carries f mid) (second : Carries mid later) : Carries f later :=
  ⟨second.cycles.trans first.cycles, second.count.trans first.count, second.rxPackets.trans first.rxPackets,
    fun bound => second.bound (first.bound bound)⟩

/- Whoever writes to other globals only. -/
theorem carriesElsewhere (system : later.globals .systemParams = f.globals .systemParams)
    (status : later.globals .systemStatus = f.globals .systemStatus) (controllers : later.jointControllers = f.jointControllers) :
    Carries f later := by
  refine ⟨?_, ?_, ?_, fun bound i inside => ?_⟩
  · rw [watchdogCycles, system, watchdogCycles]
  · rw [watchdogCount, status, watchdogCount]
  · rw [rxPackets, status, rxPackets]
  · rw [controllers]
    exact bound i inside

theorem TickOnly.carries (only : TickOnly f later) : Carries f later :=
  ⟨congrArg (fun c => c.settings.watchdogCycles) only.control, only.watchdogCount, only.rxPackets, only.bound⟩

theorem DriveOnly.carries (only : DriveOnly f later) : Carries f later := by
  have elsewhere : ∀ g, g ≠ .driveStatus → later.globals g = f.globals g := fun g other =>
    funext fun a => only.globals g a fun written => other written.1
  refine carriesElsewhere (elsewhere _ (by decide)) (elsewhere _ (by decide)) ?_
  rw [only.same]

theorem setJointSpeedCarries (control : Option Nat) (speed : Int) (f : State F) : Carries f (setJointSpeed f control speed) := by
  cases control <;> exact carriesElsewhere rfl rfl rfl

theorem setJointModeCarries (control : Option Nat) (mode : UInt8) (f : State F) : Carries f (setJointMode f control mode) := by
  cases control <;> exact carriesElsewhere rfl rfl rfl

theorem driveControlCarries (b : Board F) (f : State F) : Carries f (driveControl b f) := by
  have recognises : Carries f (recogniseCommand f) := by
    unfold recogniseCommand
    split
    · exact carriesElsewhere rfl rfl rfl
    · exact .refl f
  have controls : Carries (recogniseCommand f) (driveControllerControl b (recogniseCommand f)) := by
    unfold driveControllerControl
    dsimp only
    refine .trans ?_ (setJointModeCarries _ _ _)
    refine .trans ?_ (setJointModeCarries _ _ _)
    exact (setJointSpeedCarries _ _ _).trans (setJointSpeedCarries _ _ _)
  unfold driveControl
  dsimp only
  split
  · exact recognises.trans controls
  · exact recognises

theorem sonarHandleCarries (ranges : Nat → UInt16) (f : State F) : Carries f (sonarHandle ranges f) := by
  have polled : ∀ (sonars : List Nat) (f : State F),
      Carries f (sonars.foldl (fun f s => setWord f .sonarStatus (4 + 2 * s) (ranges s)) f) := by
    intro sonars
    induction sonars with
    | nil => exact fun f => .refl f
    | cons s rest ih =>
      intro f
      have one : Carries f (setWord f .sonarStatus (4 + 2 * s) (ranges s)) := carriesElsewhere rfl rfl rfl
      exact one.trans (ih _)
  have begun : Carries f { f with sonarReady := false, sonarCurrentCycle := f.sonarCurrentCycle + 1 } :=
    carriesElsewhere rfl rfl rfl
  unfold sonarHandle
  dsimp only
  split
  · exact begun.trans (carriesElsewhere rfl rfl rfl)
  split
  · exact begun
  · generalize List.range sonarsNum = sonars
    refine .trans ?_ (carriesElsewhere (f := sonars.foldl _ _) rfl rfl rfl)
    exact begun.trans (polled sonars _)

end Carries

/-! Up to the communication cycle. -/

structure Carried (s later : Main F) : Prop where
  queue : later.machine.queue = s.machine.queue
  app : Carries s.app later.app

section Carried
variable {b : Board F} {turn : Turn} {s mid later : Main F}

theorem Carried.trans (first : Carried s mid) (second : Carried mid later) : Carried s later :=
  ⟨second.queue.trans first.queue, first.app.trans second.app⟩

theorem Ticked.carried (ticked : Ticked s later) : Carried s later := by
  refine ⟨?_, ticked.app.carries⟩
  rw [ticked.machine]
  rfl

theorem updateCarried {change : State F → State F} (carries : Carries s.app (change s.app)) : Carried s (s.update change) :=
  ⟨rfl, carries⟩

theorem driveCycleCarried (b : Board F) (turn : Turn) (s : Main F) : Carried s (driveCycle b turn s) := by
  unfold driveCycle
  refine .trans ?_ (updateCarried (driveControlCarries b _))
  refine .trans ?_ (ticksOnly b turn 2 _).carried
  refine .trans ?_ (updateCarried (driveUpdateOnly b _).carries)
  exact (ticksOnly b turn 1 s).carried

/- What a handled cycle hands to `Orazio_commHandle`. -/
def beforeComm (b : Board F) (turn : Turn) (s : Main F) : Main F :=
  let s := ticks b turn 3 (driveCycle b turn s)
  let s := if b.sonar then s.update (sonarHandle turn.ranges) else s
  ticks b turn 4 s

theorem beforeCommCarried (b : Board F) (turn : Turn) (s : Main F) : Carried s (beforeComm b turn s) := by
  have driven := (driveCycleCarried b turn s).trans (ticksOnly b turn 3 _).carried
  unfold beforeComm
  dsimp only
  refine .trans ?_ (ticksOnly b turn 4 _).carried
  split
  · exact driven.trans (updateCarried (sonarHandleCarries _ _))
  · exact driven

theorem handleCycleComm (b : Board F) (turn : Turn) (s : Main F) : handleCycle b turn s =
    finishCycle b turn (communicate b turn (rxPackets (beforeComm b turn s).app) (beforeComm b turn s)) := by
  rw [(beforeCommCarried b turn s).app.rxPackets]
  rfl

end Carried

/-! The watchdog's turn. -/

section Handle
variable {b : Board F} {f later : State F}

def countDown (f : State F) : State F :=
  if watchdogCount f > 0 then setWatchdogCount f (ofInt16 (watchdogCount f - 1)) else f

theorem watchdogHandleCounts (f : State F) : watchdogHandle f = if watchdogCycles f = 0 then watchdogReset f
    else if watchdogCount (countDown f) = 0 then watchdogExpire (countDown f) else countDown f := rfl

theorem countDownCount (f : State F) : watchdogCount (countDown f) =
    if watchdogCount f > 0 then watchdogCount f - 1 else watchdogCount f := by
  have range : -32768 ≤ watchdogCount f ∧ watchdogCount f < 32768 := signed16Range _
  unfold countDown
  split
  · rw [watchdogCountSet, signed16OfInt16 (by omega) (by omega)]
  · rfl

theorem countDownBound (bound : Bound f) : Bound (countDown f) := by
  unfold countDown
  split
  · exact bound
  · exact bound

theorem watchdogExpireSafe (bound : Bound f) : Safe (watchdogExpire f) := by
  have expired := watchdogExpireControl bound
  refine ⟨congrArg Control.enabled expired, fun i inside => ⟨?_, ?_⟩⟩
  · have joint := congrArg (fun c => (c.joints i).mode) expired
    simp only [Control.expired, if_pos inside] at joint
    exact joint
  · unfold watchdogExpire
    rw [jointsDisableBound (f := setByte f .driveStatus 40 0) bound]
    obtain rfl | rfl : i = 0 ∨ i = 1 := by
      rw [numJoints] at inside
      omega
    · rfl
    · rfl

theorem watchdogExpireCarries (bound : Bound f) : Carries f (watchdogExpire f) := by
  unfold watchdogExpire
  rw [jointsDisableBound (f := setByte f .driveStatus 40 0) bound]
  refine ⟨rfl, rfl, rfl, fun _ i inside => ?_⟩
  obtain rfl | rfl : i = 0 ∨ i = 1 := by
    rw [numJoints] at inside
    omega
  · exact bound 0 (by decide)
  · exact bound 1 (by decide)

/- Only the count moves; at 0 everything is off. -/
structure Watched (f later : State F) : Prop where
  cycles : watchdogCycles later = watchdogCycles f
  count : watchdogCount later = if watchdogCycles f = 0 then 0
    else if watchdogCount f > 0 then watchdogCount f - 1 else watchdogCount f
  bound : Bound later
  safe : Expires (watchdogCycles f) (watchdogCount f) → Safe later

theorem countDownCycles (f : State F) : watchdogCycles (countDown f) = watchdogCycles f := by
  unfold countDown
  split <;> rfl

theorem watchdogHandleWatched (bound : Bound f) : Watched f (watchdogHandle f) := by
  rw [watchdogHandleCounts]
  by_cases off : watchdogCycles f = 0
  · rw [if_pos off]
    refine ⟨rfl, ?_, bound, fun expires => absurd off expires.1⟩
    rw [if_pos off, watchdogReset, watchdogCountSet, off]
    rfl
  rw [if_neg off]
  by_cases zero : watchdogCount (countDown f) = 0
  · rw [if_pos zero]
    have carries := watchdogExpireCarries (countDownBound bound)
    refine ⟨carries.cycles.trans (countDownCycles f), ?_, carries.bound (countDownBound bound),
      fun _ => watchdogExpireSafe (countDownBound bound)⟩
    rw [if_neg off, carries.count, countDownCount]
  · rw [if_neg zero]
    refine ⟨countDownCycles f, ?_, countDownBound bound, fun expires => absurd ?_ zero⟩
    · rw [if_neg off, countDownCount]
    · have count := expires.2
      rw [countDownCount]
      split <;> omega

theorem Watched.after {mid : State F} (watched : Watched mid later) (cycles : watchdogCycles mid = watchdogCycles f)
    (count : watchdogCount mid = watchdogCount f) : Watched f later := by
  refine ⟨watched.cycles.trans cycles, ?_, watched.bound, fun expires => watched.safe ?_⟩
  · rw [watched.count, cycles, count]
  · rwa [cycles, count]

theorem disableJointRxPackets (f : State F) (i : Nat) : rxPackets (disableJoint f i) = rxPackets f := by
  unfold disableJoint
  cases (f.jointControllers i).control <;> rfl

theorem watchdogHandleRxPackets (f : State F) : rxPackets (watchdogHandle f) = rxPackets f := by
  have set : ∀ v, rxPackets (setWatchdogCount f v) = rxPackets f := fun v => wordElsewhere f v (Or.inl (by decide))
  have down : rxPackets (countDown f) = rxPackets f := by
    unfold countDown
    split
    · exact set _
    · rfl
  rw [watchdogHandleCounts]
  split
  · exact set _
  split
  · exact (disableJointRxPackets _ 1).trans ((disableJointRxPackets _ 0).trans down)
  · exact down

theorem TickOnly.safe (only : TickOnly f later) (bound : Bound f) (safe : Safe f) : Safe later := by
  have flag : enabled later = enabled f := only.globals .driveStatus 40 fun written => by
    rcases written with written | ⟨written, -⟩ <;> cases written
  refine ⟨flag.trans safe.1, fun i inside => ?_⟩
  obtain ⟨mode, output⟩ := safe.2 i inside
  exact ⟨(only.mode i).trans mode, only.outputs i i (bound i inside) mode output⟩

theorem Watched.ticked {mid : State F} (watched : Watched f mid) (only : TickOnly mid later) : Watched f later :=
  ⟨only.carries.cycles.trans watched.cycles, only.carries.count.trans watched.count, only.carries.bound watched.bound,
    fun expires => only.safe watched.bound (watched.safe expires)⟩

end Handle

/-! A turn of the loop. -/

/- What holds in front of every turn of a run. -/
structure Guarded (sonar : Bool) (s : Main F) : Prop where
  tabled : Tabled sonar s.machine
  pending : s.machine.queue.pendingPackets = []
  bound : Bound s.app
  low : 0 ≤ signed16 (watchdogCycles s.app) → 0 ≤ watchdogCount s.app
  high : watchdogCount s.app ≤ signed16 (watchdogCycles s.app)

section Turns
variable {b : Board F} {turn : Turn} {s later : Main F} {m : Machine F}

theorem Guarded.carried {sonar : Bool} (guarded : Guarded sonar s) (carried : Carried s later) : Guarded sonar later := by
  have tabled : Tabled sonar later.machine := fun t => by
    rw [carried.queue]
    exact guarded.tabled t
  refine ⟨tabled, by rw [carried.queue, guarded.pending], carried.app.bound guarded.bound, ?_, ?_⟩
  · rw [carried.app.cycles, carried.app.count]
    exact guarded.low
  · rw [carried.app.cycles, carried.app.count]
    exact guarded.high

theorem receiveByteQueue {c : UInt8} (none : (rxByte m c).1 ≠ .syncChecksum) : (receiveByte m c).queue = m.queue := by
  have received : (rxByte m c).2.queue = m.queue := by
    cases rxByteQueue m c with
    | kept same => exact same
    | received whole => exact absurd whole none
  rw [← received]
  unfold receiveByte
  dsimp only
  split <;> split <;> rfl

theorem receivedQueue (bytes : List UInt8) (m : Machine F) (none : acceptedFrames m bytes = 0) :
    (bytes.foldl receiveByte m).queue = m.queue := by
  induction bytes generalizing m with
  | nil => rfl
  | cons c rest ih =>
    obtain ⟨first, others⟩ := Nat.add_eq_zero_iff.mp none
    rw [List.foldl_cons, ih _ others]
    exact receiveByteQueue fun whole => absurd first (by simp [whole])

/- Where nothing is pending and nothing is accepted there is nothing to process. -/
theorem silentBatch {line : Line} (pending : m.queue.pendingPackets = []) (none : accepted line m = 0) :
    batch b line m = [] := by
  have queue : (beginEpoch line m).queue = m.queue := receivedQueue line.received _ none
  rw [batch, queue, pending]
  rfl

theorem communicateQueue (tabled : Tabled b.sonar s.machine) (valid : ValidBatch b turn.line s.machine) (previous : UInt16) :
    Tabled b.sonar (communicate b turn previous s).machine ∧
      (communicate b turn previous s).machine.queue.pendingPackets = [] := by
  have processed := (processPendingProcessed (beginEpochTabled turn.line tabled) valid).tabled
  let handled : Main F := { s with machine := (commHandle b turn.line s.machine).2 }
  have five : (ticks b turn 5 handled).machine.queue = handled.machine.queue := by
    rw [(ticksOnly b turn 5 handled).machine]
    rfl
  have queue : (communicate b turn previous s).machine.queue = handled.machine.queue := by
    unfold communicate
    change (ticks b turn 6 _).machine.queue = _
    rw [(ticksOnly b turn 6 _).machine, ← five]
    change (if previous ≠ rxPackets (ticks b turn 5 handled).app then (ticks b turn 5 handled).update watchdogReset
      else ticks b turn 5 handled).machine.queue = _
    split <;> rfl
  unfold Tabled
  rw [queue]
  exact ⟨processed, rfl⟩

theorem communicateRxPackets (tabled : Tabled b.sonar s.machine) (valid : ValidBatch b turn.line s.machine) (previous : UInt16) :
    rxPackets (communicate b turn previous s).app = rxPackets s.app + UInt16.ofNat (accepted turn.line s.machine) := by
  let handled : Main F := { s with machine := (commHandle b turn.line s.machine).2 }
  let reset : Main F := if previous ≠ rxPackets (ticks b turn 5 handled).app
    then (ticks b turn 5 handled).update watchdogReset else ticks b turn 5 handled
  have resetRx : rxPackets reset.app = rxPackets (ticks b turn 5 handled).app := by
    simp only [reset]
    split
    · exact wordElsewhere (ticks b turn 5 handled).app _ (Or.inl (by decide))
    · rfl
  calc rxPackets (communicate b turn previous s).app
      = rxPackets (ticks b turn 6 reset).app := watchdogHandleRxPackets _
    _ = rxPackets reset.app := (ticksOnly b turn 6 reset).app.rxPackets
    _ = rxPackets (ticks b turn 5 handled).app := resetRx
    _ = rxPackets handled.app := (ticksOnly b turn 5 handled).app.rxPackets
    _ = rxPackets s.app + UInt16.ofNat (accepted turn.line s.machine) := commHandleRxPackets tabled valid

/- What is asked of a turn: the packets of its cycle are valid, and `rx_packets` does not come round to its old value. -/
def Sound (b : Board F) (s : Main F) (turn : Turn) : Prop :=
  let here := (beforeComm b turn (idleTurn b s turn)).machine
  (idleTurn b s turn).commHandle = true →
    ValidBatch b turn.line here ∧ (accepted turn.line here % 65536 = 0 → accepted turn.line here = 0)

def Silent (b : Board F) (s : Main F) (turn : Turn) : Prop := rxPackets (loopTurn b s turn).app = rxPackets s.app

instance (b : Board F) (s turn) : Decidable (Silent b s turn) := by unfold Silent; infer_instance

def handles (b : Board F) (s : Main F) (turn : Turn) : Bool := (idleTurn b s turn).commHandle

theorem communicateSilent (guarded : Guarded b.sonar s) (valid : ValidBatch b turn.line s.machine)
    (none : accepted turn.line s.machine = 0) : Watched s.app (communicate b turn (rxPackets s.app) s).app := by
  obtain ⟨f, after, found⟩ := communicateFound guarded.tabled valid
  have settled : control f = control s.app := by
    rw [found.control, silentBatch guarded.pending none]
    rfl
  have cycles : watchdogCycles f = watchdogCycles s.app := congrArg (fun c => c.settings.watchdogCycles) settled
  have count : watchdogCount f = watchdogCount s.app := by
    rw [found.count, none]
    rfl
  rw [after]
  exact (watchdogHandleWatched (found.bound guarded.bound)).after cycles count

/- The count starts at `watchdog_cycles`, as a signed number, and runs towards 0. -/
theorem communicateGuarded (guarded : Guarded b.sonar s) (valid : ValidBatch b turn.line s.machine)
    (frames : accepted turn.line s.machine % 65536 = 0 → accepted turn.line s.machine = 0) :
    Guarded b.sonar (communicate b turn (rxPackets s.app) s) := by
  obtain ⟨f, after, found⟩ := communicateFound guarded.tabled valid
  obtain ⟨tabled, pending⟩ := communicateQueue guarded.tabled valid (rxPackets s.app)
  have within : watchdogCount f ≤ signed16 (watchdogCycles f) ∧ (0 ≤ signed16 (watchdogCycles f) → 0 ≤ watchdogCount f) := by
    rw [found.count, countFound]
    split
    · rename_i same
      have settled : control f = control s.app := by
        rw [found.control, silentBatch guarded.pending (frames same)]
        rfl
      have cycles : watchdogCycles f = watchdogCycles s.app := congrArg (fun c => c.settings.watchdogCycles) settled
      rw [cycles]
      exact ⟨guarded.high, guarded.low⟩
    · exact ⟨le_refl _, id⟩
  have watched := watchdogHandleWatched (found.bound guarded.bound)
  rw [← after] at watched
  by_cases off : watchdogCycles f = 0
  · have stopped : watchdogCount (communicate b turn (rxPackets s.app) s).app = 0 := by
      rw [watched.count, if_pos off]
    refine ⟨tabled, pending, watched.bound, fun _ => stopped.symm.le, ?_⟩
    rw [watched.cycles, stopped, off]
    decide
  · refine ⟨tabled, pending, watched.bound, ?_, ?_⟩
    all_goals
      rw [watched.cycles, watched.count, if_neg off]
      split <;> omega

theorem loopTurnIdle (idle : handles b s turn = false) : loopTurn b s turn = idleTurn b s turn := by
  unfold loopTurn
  exact if_neg (by rw [← handles, idle]; exact Bool.false_ne_true)

theorem loopTurnHandled (handled : handles b s turn = true) :
    let here := beforeComm b turn (idleTurn b s turn)
    loopTurn b s turn = finishCycle b turn (communicate b turn (rxPackets here.app) here) := by
  intro here
  rw [← handleCycleComm]
  exact if_pos handled

theorem beforeCommTurn (b : Board F) (s : Main F) (turn : Turn) : Carried s (beforeComm b turn (idleTurn b s turn)) :=
  (idleTurnOnly b s turn).carried.trans (beforeCommCarried b turn _)

theorem loopTurnGuarded (guarded : Guarded b.sonar s) (sound : Sound b s turn) : Guarded b.sonar (loopTurn b s turn) := by
  cases handled : handles b s turn with
  | false =>
    rw [loopTurnIdle handled]
    exact guarded.carried (idleTurnOnly b s turn).carried
  | true =>
    obtain ⟨valid, frames⟩ := sound handled
    rw [loopTurnHandled handled]
    have communicated := communicateGuarded (guarded.carried (beforeCommTurn b s turn)) valid frames
    exact communicated.carried (finishCycleOnly b turn _).carried

/- A handled cycle in which `rx_packets` does not change accepts nothing. -/
theorem silentAccepts (guarded : Guarded b.sonar s) (sound : Sound b s turn) (silent : Silent b s turn)
    (handled : handles b s turn = true) : accepted turn.line (beforeComm b turn (idleTurn b s turn)).machine = 0 := by
  obtain ⟨valid, frames⟩ := sound handled
  have carried := beforeCommTurn b s turn
  have rx := communicateRxPackets (guarded.carried carried).tabled valid
    (rxPackets (beforeComm b turn (idleTurn b s turn)).app)
  unfold Silent at silent
  rw [loopTurnHandled handled, (finishCycleOnly b turn _).app.rxPackets, rx, carried.app.rxPackets] at silent
  exact frames ((sameCounter _ _).mp silent.symm)

theorem silentTurnWatched (guarded : Guarded b.sonar s) (sound : Sound b s turn) (silent : Silent b s turn)
    (handled : handles b s turn = true) : Watched s.app (loopTurn b s turn).app := by
  have carried := beforeCommTurn b s turn
  have none := silentAccepts guarded sound silent handled
  have watched := communicateSilent (guarded.carried carried) (sound handled).1 none
  rw [loopTurnHandled handled]
  exact (watched.ticked (finishCycleOnly b turn _).app).after carried.app.cycles carried.app.count

end Turns

/-! Runs. -/

section Runs
variable {b : Board F} {s : Main F} {before quiet : List Turn}

theorem installAllPending (installs : List (Install DeferredAction)) (m : Machine F) :
    (installAll m installs).queue.pendingPackets = m.queue.pendingPackets := by
  induction installs generalizing m with
  | nil => rfl
  | cons i rest ih =>
    refine (ih _).trans ?_
    unfold installPacket
    split <;> rfl

theorem bootGuarded {buffers : PacketBuffers} {base : PacketHandler PacketType} {memory eeprom : Memory}
    (bound : Bound (boot b buffers base memory eeprom).app) : Guarded b.sonar (boot b buffers base memory eeprom) := by
  obtain ⟨m, text, machine, tabled, pending⟩ : ∃ m text, (boot b buffers base memory eeprom).machine =
      updateApp m (fun f => commSendString text (setWatchdogCount f (watchdogCycles f))) ∧
        Tabled b.sonar m ∧ m.queue.pendingPackets = [] :=
    ⟨commInit b.sonar buffers _, _, rfl, commInitTabled b.sonar buffers _, installAllPending _ _⟩
  generalize boot b buffers base memory eeprom = s at bound machine ⊢
  have app : s.app = commSendString text (setWatchdogCount m.outside.app (watchdogCycles m.outside.app)) := by
    rw [Main.app, machine]
    rfl
  have queue : s.machine.queue = m.queue := by
    rw [machine]
    rfl
  have said : Carries (setWatchdogCount m.outside.app (watchdogCycles m.outside.app)) s.app := by
    rw [app]
    exact carriesElsewhere rfl rfl rfl
  have cycles : watchdogCycles s.app = watchdogCycles m.outside.app := said.cycles
  have count : watchdogCount s.app = signed16 (watchdogCycles m.outside.app) := said.count.trans (watchdogCountSet _ _)
  refine ⟨fun t => ?_, queue ▸ pending, bound, ?_, ?_⟩
  · rw [queue]
    exact tabled t
  · rw [cycles, count]
    exact id
  · rw [cycles, count]

/- While nothing is accepted, the cycles handled count down from `watchdog_count`. -/
theorem silenceRunsDown (b : Board F) (cycles : UInt16) (some : cycles ≠ 0) (fits : cycles < 32768) :
    RunsDown (loopTurn b) (fun s turn => Sound b s turn ∧ Silent b s turn) (handles b)
      (fun s => Guarded b.sonar s ∧ watchdogCycles s.app = cycles) (fun s => (watchdogCount s.app).toNat)
      (fun s => Safe s.app) where
  keeps s turn := by
    rintro ⟨guarded, same⟩ ⟨sound, silent⟩
    refine ⟨loopTurnGuarded guarded sound, ?_⟩
    cases handled : handles b s turn with
    | false =>
      rw [loopTurnIdle handled, ← same]
      exact (idleTurnOnly b s turn).app.carries.cycles
    | true =>
      rw [← same]
      exact (silentTurnWatched guarded sound silent handled).cycles
  strike s turn := by
    rintro ⟨guarded, same⟩ ⟨sound, silent⟩ handled
    have watched := silentTurnWatched guarded sound silent handled
    have count := watched.count
    rw [same, if_neg some] at count
    have nonnegative : 0 ≤ watchdogCount s.app := guarded.low (by
      rw [same, signed16, if_pos fits]
      exact Int.natCast_nonneg _)
    refine ⟨?_, fun last => watched.safe ⟨by rwa [same], by omega⟩⟩
    rw [count]
    split <;> omega
  rest s turn := by
    rintro ⟨guarded, -⟩ - idle
    have only := (idleTurnOnly b s turn).app
    rw [loopTurnIdle idle]
    refine ⟨?_, only.safe guarded.bound⟩
    rw [only.watchdogCount]

/- The system parameters with `watchdog_cycles`, and a turn with `n` ticks at its head. -/
def watchdogPacket (cycles : UInt16) : List UInt8 := systemParamPacket.take 21 ++ littleEndian16 cycles ++ systemParamPacket.drop 23

def tickedTurn (n : Nat) (packets : List (List UInt8)) : Turn :=
  ⟨fun point => if point = 0 then List.replicate n fun _ => 0 else [], fun _ => 0, packetLine packets⟩

end Runs

/-! A negative count never gets to 0: the joints go on while nothing is received. -/

section Stalled
variable {b : Board F} {s : Main F} {turn : Turn}

structure Stalled (b : Board F) (s : Main F) : Prop where
  guarded : Guarded b.sonar s
  negative : watchdogCount s.app < 0
  off : (control s.app).enabled = 0
  known : (control s.app).lastDriveControlSeq = (control s.app).driveControlSeq

theorem Stalled.ticked {later : Main F} (stalled : Stalled b s) (ticked : Ticked s later) : Stalled b later := by
  have carried := ticked.carried
  refine ⟨stalled.guarded.carried carried, ?_, ?_, ?_⟩
  · rw [carried.app.count]
    exact stalled.negative
  · rw [ticked.app.control]
    exact stalled.off
  · rw [ticked.app.control]
    exact stalled.known

theorem beforeCommControl (noSonar : b.sonar = false) (off : (control s.app).enabled = 0)
    (known : (control s.app).lastDriveControlSeq = (control s.app).driveControlSeq) :
    control (beforeComm b turn s).app = control s.app := by
  have one := (ticksOnly b turn 1 s).app.control
  have two := (ticksOnly b turn 2 ((ticks b turn 1 s).update (driveUpdate b))).app.control
  have updated : control (ticks b turn 2 ((ticks b turn 1 s).update (driveUpdate b))).app = control s.app :=
    two.trans ((driveUpdateControl b _).trans one)
  have driven : control (driveCycle b turn s).app = control s.app := by
    unfold driveCycle
    change control (driveControl b (ticks b turn 2 ((ticks b turn 1 s).update (driveUpdate b))).app) = _
    rw [driveControlIdle (by rw [updated, known]) (by rw [updated, off])]
    exact updated
  have three := (ticksOnly b turn 3 (driveCycle b turn s)).app.control
  have four := (ticksOnly b turn 4 (ticks b turn 3 (driveCycle b turn s))).app.control
  unfold beforeComm
  dsimp only
  rw [if_neg (by rw [noSonar]; exact Bool.false_ne_true)]
  exact four.trans (three.trans driven)

theorem Stalled.beforeComm (stalled : Stalled b s) (noSonar : b.sonar = false) : Stalled b (beforeComm b turn s) := by
  have carried := beforeCommCarried b turn s
  have same : control (Firmware.beforeComm b turn s).app = control s.app :=
    beforeCommControl noSonar stalled.off stalled.known
  refine ⟨stalled.guarded.carried carried, ?_, ?_, ?_⟩
  · rw [carried.app.count]
    exact stalled.negative
  · rw [same]
    exact stalled.off
  · rw [same]
    exact stalled.known

theorem nothingAccepted {line : Line} (silence : line.received = []) (m : Machine F) : accepted line m = 0 := by
  rw [accepted, silence]
  rfl

theorem Stalled.sound (stalled : Stalled b s) (silence : turn.line.received = []) : Sound b s turn := by
  refine fun _ => ⟨fun p member => ?_, fun _ => nothingAccepted silence _⟩
  have queue := receivedQueue turn.line.received
    (updateApp (Firmware.beforeComm b turn (idleTurn b s turn)).machine (setWord · .systemStatus 4 turn.line.rxBufferFull))
    (nothingAccepted silence _)
  have pending : (beginEpoch turn.line (Firmware.beforeComm b turn (idleTurn b s turn)).machine).queue.pendingPackets = [] := by
    refine (congrArg DeferredQueue.pendingPackets queue).trans ?_
    exact (stalled.guarded.carried (beforeCommTurn b s turn)).pending
  rw [pending] at member
  cases member

theorem Stalled.communicate (stalled : Stalled b s) (silence : turn.line.received = [])
    (valid : ValidBatch b turn.line s.machine) :
    Stalled b (communicate b turn (rxPackets s.app) s) ∧
      control (communicate b turn (rxPackets s.app) s).app = control s.app := by
  have none := nothingAccepted silence s.machine
  have guarded := communicateGuarded stalled.guarded valid fun _ => none
  have watched := communicateSilent stalled.guarded valid none
  have negative := stalled.negative
  have running : watchdogCycles s.app ≠ 0 := fun zero => by
    have low := stalled.guarded.low (by rw [zero]; decide)
    omega
  obtain ⟨f, after, found⟩ := communicateFound stalled.guarded.tabled valid
  have settled : control f = control s.app := by
    rw [found.control, silentBatch stalled.guarded.pending none]
    rfl
  have count : watchdogCount f = watchdogCount s.app := by
    rw [found.count, none]
    rfl
  have same : control (Firmware.communicate b turn (rxPackets s.app) s).app = control s.app := by
    have lasts : ¬ Expires (watchdogCycles f) (watchdogCount f) := fun expires => by
      have last := expires.2
      omega
    rw [after, watchdogHandleControl fun expires => absurd expires lasts, if_neg lasts, settled]
  refine ⟨⟨guarded, ?_, ?_, ?_⟩, same⟩
  · rw [watched.count, if_neg running, if_neg (by omega)]
    exact negative
  · rw [same]
    exact stalled.off
  · rw [same]
    exact stalled.known

theorem stalledTurn (stalled : Stalled b s) (noSonar : b.sonar = false) (silence : turn.line.received = []) :
    Stalled b (loopTurn b s turn) ∧ control (loopTurn b s turn).app = control s.app ∧ Silent b s turn := by
  have idle := idleTurnOnly b s turn
  cases handled : handles b s turn with
  | false =>
    rw [Silent, loopTurnIdle handled]
    exact ⟨stalled.ticked idle, idle.app.control, idle.app.rxPackets⟩
  | true =>
    have valid := (stalled.sound silence handled).1
    have begun : Stalled b (beforeComm b turn (idleTurn b s turn)) := (stalled.ticked idle).beforeComm noSonar
    obtain ⟨communicated, same⟩ := begun.communicate silence valid
    have finished := finishCycleOnly b turn
      (communicate b turn (rxPackets (beforeComm b turn (idleTurn b s turn)).app) (beforeComm b turn (idleTurn b s turn)))
    have rx := communicateRxPackets begun.guarded.tabled valid (rxPackets (beforeComm b turn (idleTurn b s turn)).app)
    rw [nothingAccepted silence] at rx
    rw [Silent, loopTurnHandled handled]
    refine ⟨communicated.ticked finished, ?_, ?_⟩
    · rw [finished.app.control, same, beforeCommControl noSonar (stalled.ticked idle).off (stalled.ticked idle).known]
      exact idle.app.control
    · rw [finished.app.rxPackets, rx, ← (sameCounter _ 0).mpr rfl]
      exact (beforeCommTurn b s turn).app.rxPackets

/- However the counter of the ticks stands, 256 of them set `comm_handle`. -/
theorem ticksHandle {encoders : List (Nat → UInt16)} (enough : s.commHandle = true ∨
    (s.tickCounter - 1).toNat < encoders.length) : (encoders.foldl (onTimerTick b) s).commHandle = true := by
  induction encoders generalizing s with
  | nil => exact enough.resolve_right (Nat.not_lt_zero _)
  | cons sample rest ih =>
    refine ih ?_
    by_cases last : s.tickCounter - 1 = 0
    · refine Or.inl ?_
      unfold onTimerTick
      exact congrArg Main.commHandle (if_pos last)
    · have tick : onTimerTick b s sample = { s.update (jointsHandle b sample) with tickCounter := s.tickCounter - 1 } := by
        unfold onTimerTick
        exact if_neg last
      rw [tick]
      refine enough.imp id fun more => ?_
      have positive : (s.tickCounter - 1).toNat ≠ 0 := fun zero => last (UInt8.toNat_inj.mp zero)
      have less : (s.tickCounter - 1 - 1).toNat = (s.tickCounter - 1).toNat - 1 := by
        rw [UInt8.toNat_sub_of_le]
        · rfl
        · rw [UInt8.le_iff_toNat_le]
          exact Nat.pos_of_ne_zero positive
      rw [List.length_cons] at more
      change (s.tickCounter - 1 - 1).toNat < rest.length
      omega

theorem tickedTurnHandled {n : Nat} (enough : 256 ≤ n) (s : Main F) (packets : List (List UInt8)) :
    handles b s (tickedTurn n packets) = true := by
  have counter := (s.tickCounter - 1).toNat_lt
  have ticks : ((tickedTurn n packets).ticks 0).length = n := List.length_replicate
  exact ticksHandle (Or.inr (by omega))

theorem controlMode {f later : State F} (same : control later = control f) (i : Nat) : jointMode later i = jointMode f i :=
  congrArg (fun c => (c.joints i).mode) same

theorem stalledRun {ticks : Nat} (enough : 256 ≤ ticks) (stalled : Stalled b s) (noSonar : b.sonar = false) (n : Nat) :
    let quiet := List.replicate n (tickedTurn ticks [])
    control (loop b s quiet).app = control s.app ∧ Each (loopTurn b) (Silent b) s quiet ∧
      Each (loopTurn b) (Sound b) s quiet ∧ strokes (loopTurn b) (handles b) s quiet = n := by
  induction n generalizing s with
  | zero => exact ⟨rfl, trivial, trivial, rfl⟩
  | succ n ih =>
    have silence : (tickedTurn ticks []).line.received = [] := rfl
    obtain ⟨later, same, silent⟩ := stalledTurn stalled noSonar silence
    obtain ⟨control, silents, sounds, handled⟩ := ih later
    refine ⟨control.trans same, ⟨silent, silents⟩, ⟨stalled.sound silence, sounds⟩, ?_⟩
    rw [List.replicate_succ, strokes, tickedTurnHandled enough, handled, if_pos rfl, Nat.add_comm]

end Stalled

/- A joint command received together with 32768 for `watchdog_cycles` is never withdrawn. -/
def unwatchedTurn : Turn := tickedTurn 2 [watchdogPacket 32768, jointControlPacket]

def unwatched : Main Rat := loopTurn bench booted unwatchedTurn

theorem unwatchedSound : Sound bench booted unwatchedTurn := fun _ => by decide +kernel

theorem unwatchedStalled : Stalled bench unwatched :=
  ⟨loopTurnGuarded (bootGuarded (by decide +kernel)) unwatchedSound, by decide +kernel, by decide +kernel, by decide +kernel⟩

end OrazioLogger.Firmware
