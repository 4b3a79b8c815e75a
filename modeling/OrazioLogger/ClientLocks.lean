import OrazioLogger.Installation
import OrazioLogger.OrazioClient
import OrazioLogger.Support.Outcome

/-! The two mutexes of the client over whole sequences of calls: who holds them when
a call returns, and whether a call can wait for one that nobody releases. -/
namespace OrazioLogger.OrazioClient
open ByteMemory OrazioPackets Outcome

structure Locks (write read : Bool) (cl : OrazioClient) : Prop where
  write : cl.writeMutex = write
  read : cl.readMutex = read

abbrev Released : OrazioClient → Prop := Locks false false

def NotLocked (reason : Halt) : Prop := reason ≠ .locked

/- A call returns with both mutexes released, or ends without waiting for a mutex. -/
abbrev Releases : Except Halt (PacketStatus × OrazioClient) → Prop := Ends NotLocked fun result => Released result.2

section Parts
variable {write read : Bool} {cl : OrazioClient}

theorem lockWriteEnds (locks : Locks false read cl) : Ends NotLocked (Locks true read) (lockWrite cl) := by
  unfold lockWrite
  rw [locks.write]
  exact ⟨rfl, locks.read⟩

theorem lockReadEnds (locks : Locks write false cl) : Ends NotLocked (Locks write true) (lockRead cl) := by
  unfold lockRead
  rw [locks.read]
  exact ⟨locks.write, rfl⟩

theorem unlockWriteLocks (locks : Locks write read cl) : Locks false read (unlockWrite cl) := ⟨rfl, locks.read⟩

theorem unlockReadLocks (locks : Locks write read cl) : Locks write false (unlockRead cl) := ⟨locks.write, rfl⟩

theorem Locks.withMemory (memory : Memory) (locks : Locks write read cl) :
    Locks write read { cl with memory := memory } := ⟨locks.write, locks.read⟩

theorem flushLoopEnds (writes : List Int) (locks : Locks write read cl) :
    Ends NotLocked (Locks write read) (flushLoop cl writes) := by
  induction writes generalizing cl with
  | nil =>
    unfold flushLoop
    split
    · exact ⟨locks.write, locks.read⟩
    · exact Halt.noConfusion
  | cons res rest ih =>
    unfold flushLoop
    split
    · exact ⟨locks.write, locks.read⟩
    · exact ih ⟨locks.write, locks.read⟩

theorem readLoopEnds (reads : List ReadOutcome) (locks : Locks write read cl) :
    Ends NotLocked (Locks write read) (readLoop cl reads) := by
  induction reads generalizing cl with
  | nil => exact Halt.noConfusion
  | cons outcome rest ih =>
    unfold readLoop
    by_cases some : outcome.n ≠ 0
    · simp only [if_pos some]
      split
      · exact ⟨locks.write, locks.read⟩
      · exact ih ⟨locks.write, locks.read⟩
    · simp only [if_neg some]
      exact ih ⟨locks.write, locks.read⟩

theorem readPacketEnds (locks : Locks write read cl) : Ends NotLocked (Locks write read) (readPacket cl) :=
  readLoopEnds cl.fd.reads locks

theorem enqueuePacketLocks (p : Addr) (locks : Locks write read cl) : Locks write read (enqueuePacket cl p).2 := by
  simp only [enqueuePacket]
  split
  · exact ⟨locks.write, locks.read⟩
  · split
    · exact ⟨locks.write, locks.read⟩
    · split <;> exact ⟨locks.write, locks.read⟩

theorem awaitResponseEnds (type : PacketType) (seq : PacketSeq) (timeout : Nat) (locks : Locks write read cl) :
    Ends NotLocked (fun result => Locks write read result.2) (awaitResponse cl type seq timeout) := by
  induction timeout generalizing cl with
  | zero => exact locks
  | succ timeout ih =>
    unfold awaitResponse
    refine (readPacketEnds locks).bind fun next locks => ?_
    split
    · exact locks
    · exact ih locks

theorem awaitEpochEnds (current : PacketSeq) (turns : Nat) (released : Released cl) :
    Ends NotLocked Released (awaitEpoch cl current turns) := by
  induction turns generalizing cl with
  | zero => exact Halt.noConfusion
  | succ turns ih =>
    unfold awaitEpoch
    refine (lockReadEnds released).bind fun locked locks => ?_
    refine (readPacketEnds locks).bind fun next locks => ?_
    have unlocked := unlockReadLocks locks
    dsimp only
    split
    · exact ih unlocked
    · exact unlocked

theorem syncCyclesEnds (cycles : Nat) (released : Released cl) : Ends NotLocked Released (syncCycles cl cycles) := by
  induction cycles generalizing cl with
  | zero => exact released
  | succ cycles ih =>
    unfold syncCycles
    refine (lockWriteEnds released).bind fun locked locks => ?_
    refine (flushLoopEnds locked.fd.writes locks).bind fun flushed locks => ?_
    refine (awaitEpochEnds _ _ ?_).bind fun next released => ih released
    apply unlockWriteLocks
    split
    · exact enqueuePacketLocks driveControlPacket locks
    · exact locks

end Parts

section Calls
variable {cl : OrazioClient}

theorem sendPacketReleases (p : Addr) (timeout : Int) (released : Released cl) :
    Releases (sendPacket cl p timeout) := by
  unfold sendPacket
  split
  · exact (lockWriteEnds released).bind fun locked locks => unlockWriteLocks (enqueuePacketLocks p locks)
  · refine (lockWriteEnds released).bind fun writing locks => ?_
    refine (lockReadEnds locks).bind fun locked locks => ?_
    have locks := enqueuePacketLocks p locks
    dsimp only
    split
    · exact unlockWriteLocks (unlockReadLocks locks)
    · refine (flushLoopEnds _ locks).bind fun flushed locks => ?_
      exact (awaitResponseEnds _ _ _ locks).bind fun answer locks => unlockWriteLocks (unlockReadLocks locks)

theorem syncReleases (cycles : Int) (released : Released cl) : Releases (sync cl cycles) :=
  (syncCyclesEnds cycles.toNat released).bind fun _ released => released

theorem setBaseVelocityEnds (tv rv : UInt32) (released : Released cl) :
    Ends NotLocked Released (setBaseVelocity cl tv rv) :=
  (lockWriteEnds released).bind fun _ locks => ⟨rfl, locks.read⟩

theorem getOdometryPositionEnds (x y theta : Addr) (released : Released cl) :
    Ends NotLocked Released (getOdometryPosition cl x y theta) :=
  (lockReadEnds released).bind fun _ locks => ⟨locks.write, rfl⟩

theorem sendQueryReleases (query : Addr) (paramType index : UInt8) (timeout : Int) (released : Released cl) :
    Releases (sendQuery cl query paramType index timeout) :=
  sendPacketReleases query timeout (released.withMemory _)

theorem queryJointsReleases (query : Addr) (timeout : Int) (i : UInt8) (joints : Nat) (released : Released cl) :
    Releases (queryJoints cl query timeout i joints) := by
  induction joints generalizing cl i with
  | zero => exact released
  | succ joints ih =>
    unfold queryJoints
    refine (sendQueryReleases query paramJointsSingle i timeout released).bind fun result released => ?_
    dsimp only
    split
    · exact released
    · exact ih (i + 1) released

theorem readConfigurationReleases (query : Addr) (timeout : Int) (released : Released cl) :
    Releases (readConfiguration cl query timeout) := by
  unfold readConfiguration
  refine (sendQueryReleases query paramSystem 0xFF timeout (released.withMemory _)).bind fun system released => ?_
  dsimp only
  split
  · exact released
  · split
    · exact Halt.noConfusion
    · split
      · exact Halt.noConfusion
      · have known : Released { system.2 with numJoints := (system.2.memory (systemParam + 23)).toNat } :=
          ⟨released.write, released.read⟩
        refine (queryJointsReleases query timeout 0 _ known).bind fun joints released => ?_
        split
        · exact released
        · refine (sendQueryReleases query paramDrive 0xFF timeout released).bind fun drive released => ?_
          split
          · exact released
          · exact sendQueryReleases query paramSonar 0xFF timeout released

/- The packet asked for is not indexed, or its index is below the number of joints. -/
def GetClear (cl : OrazioClient) (dest : Addr) : Prop :=
  ∀ (inRange : (cl.memory dest).toNat < packetTypeMax) (ops : ClientOp),
    cl.packetHandler.operations ⟨(cl.memory dest).toNat, inRange⟩ = some ops → ops.type = cl.memory dest →
    ops.indexed = true → ((cl.memory (dest + 4)).toNat : Int) < cl.numJoints

theorem lockReadOk (free : cl.readMutex = false) : lockRead cl = .ok { cl with readMutex := true } := by
  unfold lockRead
  rw [free]
  rfl

theorem lockWriteOk (free : cl.writeMutex = false) : lockWrite cl = .ok { cl with writeMutex := true } := by
  unfold lockWrite
  rw [free]
  rfl

theorem getReleases (dest : Addr) (released : Released cl) (clear : GetClear cl dest) : Releases (get cl dest) := by
  simp only [get]
  split
  case isFalse => exact released
  case isTrue inRange =>
    split
    case h_1 => exact released
    case h_2 ops installed =>
      split
      case isTrue => exact Halt.noConfusion
      case isFalse same =>
        rw [bindOk (lockReadOk released.read)]
        split
        case isTrue indexed =>
          have inside := clear inRange ops installed (not_not.mp same) indexed
          rw [if_neg (by dsimp only; omega)]
          exact ⟨released.write, rfl⟩
        case isFalse => exact ⟨released.write, rfl⟩

/- The return in the middle of `OrazioClient_get` keeps the mutex. -/
theorem getKeepsLock (dest : Addr) (released : Released cl) (unclear : ¬ GetClear cl dest) :
    ∃ later, get cl dest = .ok (.genericError, later) ∧ ¬ Released later := by
  unfold GetClear at unclear
  push Not at unclear
  obtain ⟨inRange, ops, installed, same, indexed, outside⟩ := unclear
  refine ⟨{ cl with readMutex := true }, ?_, fun released => Bool.noConfusion released.read⟩
  simp only [get, dif_pos inRange, installed, same, bindOk (lockReadOk released.read), indexed]
  simp [outside]

end Calls

/-! Sequences of calls. Between two calls the caller fills its own packets. -/

inductive Call where
  | fill (a : Addr) (c : UInt8)
  | sendPacket (p : Addr) (timeout : Int)
  | sync (cycles : Int)
  | get (dest : Addr)
  | setBaseVelocity (tv rv : UInt32)
  | getOdometryPosition (x y theta : Addr)
  | readConfiguration (query : Addr) (timeout : Int)

def call (cl : OrazioClient) : Call → Except Halt OrazioClient
  | .fill a c => .ok { cl with memory := store cl.memory a c }
  | .sendPacket p timeout => Prod.snd <$> sendPacket cl p timeout
  | .sync cycles => Prod.snd <$> sync cl cycles
  | .get dest => Prod.snd <$> get cl dest
  | .setBaseVelocity tv rv => setBaseVelocity cl tv rv
  | .getOdometryPosition x y theta => getOdometryPosition cl x y theta
  | .readConfiguration query timeout => Prod.snd <$> readConfiguration cl query timeout

def perform (cl : OrazioClient) : List Call → Except Halt OrazioClient
  | [] => .ok cl
  | c :: rest => call cl c >>= fun next => perform next rest

/- Every call that returns leaves both mutexes released, and none waits for one. -/
structure Disciplined (cl : OrazioClient) (calls : List Call) : Prop where
  released : ∀ k later, perform cl (calls.take k) = .ok later → Released later
  unblocked : perform cl calls ≠ .error .locked

def CallClear (cl : OrazioClient) : Call → Prop
  | .get dest => GetClear cl dest
  | _ => True

/- Every `OrazioClient_get` finds an index below the number of joints known by then. -/
def Clear : OrazioClient → List Call → Prop
  | _, [] => True
  | cl, c :: rest => CallClear cl c ∧ ∀ next, call cl c = .ok next → Clear next rest

section Runs
variable {cl : OrazioClient} {c : Call}

theorem callReleases (released : Released cl) (clear : CallClear cl c) : Ends NotLocked Released (call cl c) := by
  cases c with
  | fill a c => exact released.withMemory _
  | sendPacket p timeout => exact (sendPacketReleases p timeout released).map fun _ after => after
  | sync cycles => exact (syncReleases cycles released).map fun _ after => after
  | get dest => exact (getReleases dest released clear).map fun _ after => after
  | setBaseVelocity tv rv => exact setBaseVelocityEnds tv rv released
  | getOdometryPosition x y theta => exact getOdometryPositionEnds x y theta released
  | readConfiguration query timeout => exact (readConfigurationReleases query timeout released).map fun _ after => after

theorem unclearKeepsLock (released : Released cl) (unclear : ¬ CallClear cl c) :
    ∃ later, call cl c = .ok later ∧ ¬ Released later := by
  cases c with
  | get dest =>
    obtain ⟨later, returned, held⟩ := getKeepsLock dest released unclear
    exact ⟨later, by simp [call, returned], held⟩
  | _ => exact absurd trivial unclear

theorem performReleases {calls : List Call} (released : Released cl) (clear : Clear cl calls) :
    Ends NotLocked Released (perform cl calls) := by
  induction calls generalizing cl with
  | nil => exact released
  | cons c rest ih =>
    cases first : call cl c with
    | error reason =>
      rw [perform, bindError first]
      exact (callReleases released clear.1).early first
    | ok next =>
      rw [perform, bindOk first]
      exact ih ((callReleases released clear.1).returned first) (clear.2 next first)

theorem clearTake {calls : List Call} (clear : Clear cl calls) (k : Nat) : Clear cl (calls.take k) := by
  induction calls generalizing cl k with
  | nil => simpa using clear
  | cons c rest ih =>
    cases k with
    | zero => trivial
    | succ k => exact ⟨clear.1, fun next returned => ih (clear.2 next returned) k⟩

theorem disciplinedOfClear {calls : List Call} (released : Released cl) (clear : Clear cl calls) :
    Disciplined cl calls where
  released k _ returned := (performReleases released (clearTake clear k)).returned returned
  unblocked locked := (performReleases released clear).early locked rfl

theorem Disciplined.first {rest : List Call} {next : OrazioClient} (disciplined : Disciplined cl (c :: rest))
    (returned : call cl c = .ok next) : Released next :=
  disciplined.released 1 next (by rw [List.take_succ_cons, perform, bindOk returned]; rfl)

theorem Disciplined.rest {rest : List Call} {next : OrazioClient} (disciplined : Disciplined cl (c :: rest))
    (returned : call cl c = .ok next) : Disciplined next rest where
  released k later later' := disciplined.released (k + 1) later (by rw [List.take_succ_cons, perform, bindOk returned, later'])
  unblocked locked := disciplined.unblocked (by rw [perform, bindOk returned, locked])

theorem clearOfDisciplined {calls : List Call} (released : Released cl) (disciplined : Disciplined cl calls) :
    Clear cl calls := by
  induction calls generalizing cl with
  | nil => trivial
  | cons c rest ih =>
    refine ⟨?_, fun next returned => ih (disciplined.first returned) (disciplined.rest returned)⟩
    by_contra unclear
    obtain ⟨later, returned, held⟩ := unclearKeepsLock released unclear
    exact held (disciplined.first returned)

end Runs

def freshClient : OrazioClient := init (PacketHandler.blankHandler ClientOp) (fun _ => 0) ⟨[], [], []⟩

end OrazioLogger.OrazioClient
