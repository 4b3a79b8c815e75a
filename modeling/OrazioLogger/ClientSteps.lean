import OrazioLogger.ClientCalls

/-! The calls of the client step by step. Between two steps of one thread there may be steps of another. -/
namespace OrazioLogger.OrazioClient
open ByteMemory OrazioPackets Outcome

inductive Step where
  | lockWrite
  | unlockWrite
  | lockRead
  | unlockRead
  | flush
  | read
  | send (p : Addr)
  | control
  | velocity (tv rv : UInt32)
  | store (a : Addr) (c : UInt8)
  | copy (dest src : Addr) (n : Nat)
  | numJoints
  deriving DecidableEq, Repr

/- What a cycle of `OrazioClient_sync` does between its flush and its wait. -/
def sendControl (cl : OrazioClient) : OrazioClient :=
  if load16 cl.memory (driveControlPacket + 2) ≠ 0 then (enqueuePacket cl driveControlPacket).2 else cl

/- The assignments of `OrazioClient_setBaseVelocity`. -/
def withVelocity (cl : OrazioClient) (tv rv : UInt32) : OrazioClient :=
  let memory := store32 (store32 cl.memory (driveControlPacket + 4) tv) (driveControlPacket + 8) rv
  { cl with memory := store16 memory (driveControlPacket + 2) 1 }

def step (cl : OrazioClient) : Step → Except Halt OrazioClient
  | .lockWrite => lockWrite cl
  | .unlockWrite => .ok (unlockWrite cl)
  | .lockRead => lockRead cl
  | .unlockRead => .ok (unlockRead cl)
  | .flush => flushBuffer cl
  | .read => readPacket cl
  | .send p => .ok (enqueuePacket cl p).2
  | .control => .ok (sendControl cl)
  | .velocity tv rv => .ok (withVelocity cl tv rv)
  | .store a c => .ok { cl with memory := ByteMemory.store cl.memory a c }
  | .copy dest src n => .ok { cl with memory := memcpy cl.memory dest src n }
  | .numJoints => .ok { cl with numJoints := (cl.memory (systemParam + 23)).toNat }

def run (cl : OrazioClient) : List Step → Except Halt OrazioClient
  | [] => .ok cl
  | s :: rest => step cl s >>= fun next => run next rest

/- A caller writes, and has sent, its own memory. -/
def Own : Step → Prop
  | .send p => clientEnd ≤ p
  | .store a _ => clientEnd ≤ a
  | .copy dest _ _ => clientEnd ≤ dest
  | _ => True

instance (s : Step) : Decidable (Own s) := by cases s <;> unfold Own <;> infer_instance

/- What is said of each step of a run that returns, with what is remembered of the steps before it. -/
def EachStep {γ : Type} (remember : γ → OrazioClient → Step → γ) (holds : γ → OrazioClient → Step → OrazioClient → Prop)
    (g : γ) (cl : OrazioClient) : List Step → Prop
  | [] => True
  | s :: rest =>
    match step cl s with
    | .error _ => True
    | .ok next => holds g cl s next ∧ EachStep remember holds (remember g cl s) next rest

def eachStepDecidable {γ : Type} (remember : γ → OrazioClient → Step → γ) (holds : γ → OrazioClient → Step → OrazioClient → Prop)
    [∀ g cl s next, Decidable (holds g cl s next)] (g : γ) (cl : OrazioClient) :
    (steps : List Step) → Decidable (EachStep remember holds g cl steps)
  | [] => .isTrue trivial
  | s :: rest =>
    match returned : step cl s with
    | .error _ => .isTrue (by simp only [EachStep, returned])
    | .ok next =>
      have : Decidable (EachStep remember holds (remember g cl s) next rest) := eachStepDecidable remember holds _ next rest
      decidable_of_iff (holds g cl s next ∧ EachStep remember holds (remember g cl s) next rest) (by
        simp only [EachStep, returned])

instance {γ : Type} (remember : γ → OrazioClient → Step → γ) (holds : γ → OrazioClient → Step → OrazioClient → Prop)
    [∀ g cl s next, Decidable (holds g cl s next)] (g : γ) (cl : OrazioClient) (steps : List Step) :
    Decidable (EachStep remember holds g cl steps) := eachStepDecidable remember holds g cl steps

/- A condition on the steps themselves. -/
def Throughout (ok : OrazioClient → Step → Prop) (cl : OrazioClient) (steps : List Step) : Prop :=
  EachStep (fun _ _ _ => ()) (fun _ cl s _ => ok cl s) () cl steps

instance (ok : OrazioClient → Step → Prop) [∀ cl s, Decidable (ok cl s)] (cl : OrazioClient) (steps : List Step) :
    Decidable (Throughout ok cl steps) := by unfold Throughout; infer_instance

section EachStep
variable {γ δ : Type} {remember : γ → OrazioClient → Step → γ} {holds : γ → OrazioClient → Step → OrazioClient → Prop}
  {remember' : δ → OrazioClient → Step → δ} {holds' : δ → OrazioClient → Step → OrazioClient → Prop}
  {ok : OrazioClient → Step → Prop} {cl mid : OrazioClient} {g : γ} {d : δ} {s : Step} {steps first second : List Step}

theorem eachStepCons {next : OrazioClient} (returned : step cl s = .ok next) :
    EachStep remember holds g cl (s :: steps) ↔ holds g cl s next ∧ EachStep remember holds (remember g cl s) next steps := by
  simp only [EachStep, returned]

theorem runAppend (cl : OrazioClient) (first second : List Step) :
    run cl (first ++ second) = run cl first >>= fun mid => run mid second := by
  induction first generalizing cl with
  | nil => rfl
  | cons s rest ih =>
    rw [List.cons_append, run, run]
    cases returned : step cl s with
    | error reason => rfl
    | ok next => exact ih next

/- An invariant of the steps allowed is one of their runs, and the condition holds of what follows. -/
theorem Throughout.kept {Inv : OrazioClient → Prop}
    (keeps : ∀ cl s next, Inv cl → ok cl s → step cl s = .ok next → Inv next)
    (throughout : Throughout ok cl (first ++ second)) (start : Inv cl) (ran : run cl first = .ok mid) :
    Inv mid ∧ Throughout ok mid second := by
  induction first generalizing cl with
  | nil =>
    cases ran
    exact ⟨start, throughout⟩
  | cons s rest ih =>
    cases returned : step cl s with
    | error reason =>
      rw [run, bindError returned] at ran
      contradiction
    | ok next =>
      rw [run, bindOk returned] at ran
      obtain ⟨here, later⟩ := (eachStepCons returned).mp throughout
      exact ih later (keeps cl s next start here returned) ran

/- Two things are said of the same runs when they are said of the same steps, under an invariant of what is remembered. -/
theorem eachStepIff {Inv : γ → δ → OrazioClient → Prop}
    (keeps : ∀ g d cl s next, Inv g d cl → ok cl s → step cl s = .ok next → Inv (remember g cl s) (remember' d cl s) next)
    (same : ∀ g d cl s next, Inv g d cl → ok cl s → step cl s = .ok next → (holds g cl s next ↔ holds' d cl s next))
    (throughout : Throughout ok cl steps) (start : Inv g d cl) :
    EachStep remember holds g cl steps ↔ EachStep remember' holds' d cl steps := by
  induction steps generalizing g d cl with
  | nil => exact Iff.rfl
  | cons s rest ih =>
    cases returned : step cl s with
    | error reason => simp only [EachStep, returned]
    | ok next =>
      obtain ⟨here, later⟩ := (eachStepCons returned).mp throughout
      rw [eachStepCons returned, eachStepCons returned, same g d cl s next start here returned,
        ih later (keeps g d cl s next start here returned)]

end EachStep

/- The steps that send the base velocity or set it. -/
def Step.driving : Step → Bool
  | .control | .velocity _ _ => true
  | _ => false

/- Steps lead from one client to the other, and the driving ones among them are these, in order. -/
def Runs (cl later : OrazioClient) (driven : List Step) : Prop :=
  ∃ steps, run cl steps = .ok later ∧ steps.filter Step.driving = driven ∧ ∀ s ∈ steps, Own s

/- A computation that returns has gone on with a run. -/
abbrev GoesOn (cl : OrazioClient) (driven : List Step) : Except Halt OrazioClient → Prop :=
  Ends (fun _ => True) fun later => Runs cl later driven

abbrev AnswersOn (cl : OrazioClient) (driven : List Step) : Except Halt (PacketStatus × OrazioClient) → Prop :=
  Ends (fun _ => True) fun result => Runs cl result.2 driven

section Runs
variable {cl mid later : OrazioClient} {driven : List Step}

theorem Runs.refl (cl : OrazioClient) : Runs cl cl [] := ⟨[], rfl, rfl, by simp⟩

theorem Runs.step (runs : Runs cl mid driven) {s : Step} (own : Own s) (returned : step mid s = .ok later) :
    Runs cl later (driven ++ [s].filter Step.driving) := by
  obtain ⟨steps, ran, driving, owned⟩ := runs
  refine ⟨steps ++ [s], ?_, ?_, fun other member => ?_⟩
  · rw [runAppend, ran]
    change run mid [s] = _
    rw [run, returned]
    rfl
  · rw [List.filter_append, driving]
  · rcases List.mem_append.mp member with before | last
    · exact owned other before
    · rw [List.mem_singleton.mp last]
      exact own

/- A step that has nothing to do with the velocity. -/
theorem Runs.after (runs : Runs cl mid driven) {s : Step} (own : Own s) (other : s.driving = false)
    (returned : OrazioClient.step mid s = .ok later) : Runs cl later driven := by
  have next := runs.step own returned
  rwa [List.filter_cons_of_neg (by simp [other]), List.filter_nil, List.append_nil] at next

theorem Runs.goesOn (runs : Runs cl mid driven) {s : Step} (own : Own s) (other : s.driving = false) :
    GoesOn cl driven (OrazioClient.step mid s) := by
  cases returned : OrazioClient.step mid s with
  | error reason => trivial
  | ok later => exact runs.after own other returned

theorem Runs.lockWrite (runs : Runs cl mid driven) : GoesOn cl driven (lockWrite mid) :=
  runs.goesOn (s := .lockWrite) trivial rfl

theorem Runs.lockRead (runs : Runs cl mid driven) : GoesOn cl driven (lockRead mid) :=
  runs.goesOn (s := .lockRead) trivial rfl

theorem Runs.flush (runs : Runs cl mid driven) : GoesOn cl driven (flushBuffer mid) :=
  runs.goesOn (s := .flush) trivial rfl

theorem Runs.read (runs : Runs cl mid driven) : GoesOn cl driven (readPacket mid) :=
  runs.goesOn (s := .read) trivial rfl

theorem Runs.unlockWrite (runs : Runs cl mid driven) : Runs cl (unlockWrite mid) driven :=
  runs.after (s := .unlockWrite) trivial rfl rfl

theorem Runs.unlockRead (runs : Runs cl mid driven) : Runs cl (unlockRead mid) driven :=
  runs.after (s := .unlockRead) trivial rfl rfl

theorem Runs.store (runs : Runs cl mid driven) {a : Addr} (own : clientEnd ≤ a) (c : UInt8) :
    Runs cl { mid with memory := ByteMemory.store mid.memory a c } driven :=
  runs.after (s := .store a c) own rfl rfl

theorem Runs.store16 (runs : Runs cl mid driven) {a : Addr} (own : clientEnd ≤ a) (v : UInt16) :
    Runs cl { mid with memory := OrazioClient.store16 mid.memory a v } driven :=
  (runs.store own _).store (Nat.le_add_right_of_le own) _

theorem Runs.store32 (runs : Runs cl mid driven) {a : Addr} (own : clientEnd ≤ a) (v : UInt32) :
    Runs cl { mid with memory := OrazioClient.store32 mid.memory a v } driven :=
  (runs.store16 own _).store16 (Nat.le_add_right_of_le own) _

theorem Runs.header (runs : Runs cl mid driven) {a : Addr} (own : clientEnd ≤ a) (type : PacketType) (size : PacketSize)
    (seq : PacketSeq) : Runs cl { mid with memory := storeHeader mid.memory a type size seq } driven :=
  ((runs.store own type).store (a := a + 1) (Nat.le_add_right_of_le own) size).store16 (a := a + 2)
    (Nat.le_add_right_of_le own) seq

theorem Runs.copy (runs : Runs cl mid driven) {dest : Addr} (own : clientEnd ≤ dest) (src : Addr) (n : Nat) :
    Runs cl { mid with memory := memcpy mid.memory dest src n } driven :=
  runs.after (s := .copy dest src n) own rfl rfl

theorem Runs.send (runs : Runs cl mid driven) {p : Addr} (own : clientEnd ≤ p) : Runs cl (enqueuePacket mid p).2 driven :=
  runs.after (s := .send p) own rfl rfl

end Runs

/-! Every call that returns is a run. -/

section Calls
variable {cl mid : OrazioClient} {driven : List Step}

theorem awaitResponseRuns (type : PacketType) (seq : PacketSeq) (timeout : Nat) (runs : Runs cl mid driven) :
    AnswersOn cl driven (awaitResponse mid type seq timeout) := by
  induction timeout generalizing mid with
  | zero => exact runs
  | succ timeout ih =>
    unfold awaitResponse
    refine runs.read.bind fun next runs => ?_
    split
    · exact runs
    · exact ih runs

theorem sendPacketRuns {p : Addr} (timeout : Int) (own : clientEnd ≤ p) (runs : Runs cl mid driven) :
    AnswersOn cl driven (sendPacket mid p timeout) := by
  unfold sendPacket
  split
  · exact runs.lockWrite.bind fun locked runs => (runs.send own).unlockWrite
  · refine runs.lockWrite.bind fun writing runs => ?_
    refine runs.lockRead.bind fun locked runs => ?_
    have sent := runs.send own
    dsimp only
    split
    · exact sent.unlockRead.unlockWrite
    · refine sent.flush.bind fun flushed runs => ?_
      exact (awaitResponseRuns _ _ _ runs).bind fun answer runs => runs.unlockRead.unlockWrite

theorem awaitEpochRuns (current : PacketSeq) (turns : Nat) (runs : Runs cl mid driven) :
    GoesOn cl driven (awaitEpoch mid current turns) := by
  induction turns generalizing mid with
  | zero => trivial
  | succ turns ih =>
    unfold awaitEpoch
    refine runs.lockRead.bind fun locked runs => ?_
    refine runs.read.bind fun next runs => ?_
    dsimp only
    split
    · exact ih runs.unlockRead
    · exact runs.unlockRead

/- One `control` for each cycle. -/
theorem syncCyclesRuns (turns : Nat) (runs : Runs cl mid driven) :
    GoesOn cl (driven ++ List.replicate turns .control) (syncCycles mid turns) := by
  induction turns generalizing mid driven with
  | zero =>
    rw [List.replicate_zero, List.append_nil]
    exact runs
  | succ turns ih =>
    unfold syncCycles
    refine runs.lockWrite.bind fun locked runs => ?_
    refine runs.flush.bind fun flushed runs => ?_
    have controlled : Runs cl (sendControl flushed) (driven ++ [.control]) := runs.step (s := .control) trivial rfl
    refine (awaitEpochRuns _ _ controlled.unlockWrite).bind fun next runs => ?_
    rw [List.replicate_succ, List.append_cons]
    exact ih runs

theorem getRuns {dest : Addr} (own : clientEnd ≤ dest) (runs : Runs cl mid driven) : AnswersOn cl driven (get mid dest) := by
  simp only [get]
  split
  · split
    · exact runs
    · split
      · trivial
      · refine runs.lockRead.bind fun locked runs => ?_
        split
        · split
          · exact runs
          · exact (runs.copy own _ _).unlockRead
        · exact (runs.copy own _ _).unlockRead
  · exact runs

theorem setBaseVelocityRuns (tv rv : UInt32) (runs : Runs cl mid driven) :
    GoesOn cl (driven ++ [.velocity tv rv]) (setBaseVelocity mid tv rv) :=
  runs.lockWrite.bind fun _ runs => Runs.unlockWrite (runs.step (s := .velocity tv rv) trivial rfl)

theorem getOdometryPositionRuns {x y theta : Addr} (own : clientEnd ≤ x ∧ clientEnd ≤ y ∧ clientEnd ≤ theta)
    (runs : Runs cl mid driven) : GoesOn cl driven (getOdometryPosition mid x y theta) :=
  runs.lockRead.bind fun _ runs => (((runs.store32 own.1 _).store32 own.2.1 _).store32 own.2.2 _).unlockRead

theorem sendQueryRuns {query : Addr} (paramType index : UInt8) (timeout : Int) (own : clientEnd ≤ query)
    (runs : Runs cl mid driven) : AnswersOn cl driven (sendQuery mid query paramType index timeout) :=
  sendPacketRuns timeout own ((runs.store (Nat.le_add_right_of_le own) _).store (Nat.le_add_right_of_le own) _)

theorem queryJointsRuns {query : Addr} (timeout : Int) (i : UInt8) (joints : Nat) (own : clientEnd ≤ query)
    (runs : Runs cl mid driven) : AnswersOn cl driven (queryJoints mid query timeout i joints) := by
  induction joints generalizing mid i with
  | zero => exact runs
  | succ joints ih =>
    unfold queryJoints
    refine (sendQueryRuns paramJointsSingle i timeout own runs).bind fun result runs => ?_
    dsimp only
    split
    · exact runs
    · exact ih (i + 1) runs

theorem readConfigurationRuns {query : Addr} (timeout : Int) (own : clientEnd ≤ query) (runs : Runs cl mid driven) :
    AnswersOn cl driven (readConfiguration mid query timeout) := by
  unfold readConfiguration
  have prepared := (runs.header own paramControlPacketId sizeofParamControlPacket 0).store (a := query + 4)
    (Nat.le_add_right_of_le own) paramRequest
  refine (sendQueryRuns paramSystem 0xFF timeout own prepared).bind fun system runs => ?_
  dsimp only
  split
  · exact runs
  · have known := runs.after (s := .numJoints) trivial rfl rfl
    split
    · trivial
    · split
      · trivial
      · refine (queryJointsRuns timeout 0 _ own known).bind fun joints runs => ?_
        split
        · exact runs
        · refine (sendQueryRuns paramDrive 0xFF timeout own runs).bind fun drive runs => ?_
          split
          · exact runs
          · exact sendQueryRuns paramSonar 0xFF timeout own runs

/- What a call does about the velocity. -/
def driveSteps : Call → List Step
  | .sync cycles => List.replicate cycles.toNat .control
  | .setBaseVelocity tv rv => [.velocity tv rv]
  | .fill _ _ | .sendPacket _ _ | .get _ | .getOdometryPosition _ _ _ | .readConfiguration _ _ => []

theorem callRuns {c : Call} (foreign : Foreign c) (runs : Runs cl mid driven) :
    GoesOn cl (driven ++ driveSteps c) (call mid c) := by
  have alone : driven ++ [] = driven := List.append_nil driven
  cases c with
  | fill a c => exact alone.symm ▸ runs.store foreign c
  | sendPacket p timeout => exact alone.symm ▸ (sendPacketRuns timeout foreign runs).map fun _ runs => runs
  | sync turns =>
    have whole : AnswersOn cl (driven ++ List.replicate turns.toNat .control) (sync mid turns) :=
      (syncCyclesRuns turns.toNat runs).bind fun _ runs => runs
    exact whole.map fun _ runs => runs
  | get dest => exact alone.symm ▸ (getRuns foreign runs).map fun _ runs => runs
  | setBaseVelocity tv rv => exact setBaseVelocityRuns tv rv runs
  | getOdometryPosition x y theta => exact alone.symm ▸ getOdometryPositionRuns foreign runs
  | readConfiguration query timeout => exact alone.symm ▸ (readConfigurationRuns timeout foreign runs).map fun _ runs => runs

theorem performRuns {calls : List Call} (foreign : ∀ c ∈ calls, Foreign c) (runs : Runs cl mid driven) :
    GoesOn cl (driven ++ calls.flatMap driveSteps) (perform mid calls) := by
  induction calls generalizing mid driven with
  | nil =>
    rw [List.flatMap_nil, List.append_nil]
    exact runs
  | cons c rest ih =>
    refine (callRuns (foreign c List.mem_cons_self) runs).bind fun next runs => ?_
    rw [List.flatMap_cons, ← List.append_assoc]
    exact ih (fun other member => foreign other (List.mem_cons_of_mem c member)) runs

/- Calls that return are a run of steps, with the velocities they set and the cycles they make in order. -/
def DrivesAs (cl : OrazioClient) (calls : List Call) : Prop :=
  ∀ later, perform cl calls = .ok later → Runs cl later (calls.flatMap driveSteps)

theorem performDrives (cl : OrazioClient) {calls : List Call} (foreign : ∀ c ∈ calls, Foreign c) : DrivesAs cl calls :=
  fun _ returned => (performRuns foreign (Runs.refl cl)).returned returned

end Calls

end OrazioLogger.OrazioClient
