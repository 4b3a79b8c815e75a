import OrazioLogger.LoggerSteps

/-! The logger's queue is the producers and the consumer of `SemaphoreQueue`, so
what is written comes in the order of the critical sections. -/
namespace OrazioLogger.Logger
open SemaphoreQueue (Producer Consumer)

inductive ProducerThread where
  | main | camera
  deriving DecidableEq, Repr

abbrev Key := GenDataType × Nat

def GenData.key (d : GenData) : Key := (d.type, d.ts)

def Line.key (l : Line) : Key := (l.type, l.ts)

def AddPacket.producer : AddPacket → Producer Key
  | .waitCritical new => .waiting new.key
  | .enqueue new => .inside new.key
  | .postEmpty => .stored
  | .postCritical => .posted
  | .returned => .outside

def MainPc.producer : MainPc → Producer Key
  | .add _ pc => pc.producer
  | _ => .outside

def CameraPc.producer : CameraPc → Producer Key
  | .add pc => pc.producer
  | _ => .outside

def WriterPc.consumer : WriterPc → Consumer Key
  | .testMode | .testEmpty | .finished => .outside
  | .waitEmpty => .waiting
  | .waitCritical => .granted
  | .dequeue => .inside
  | .postCritical d => .leaving (d.map GenData.key)
  | .print d => .holding (d.map GenData.key)
  | .crashed => .holding none

def producers (main camera : Producer Key) : ProducerThread → Producer Key
  | .main => main
  | .camera => camera

def view (sh : Shared) (producer : ProducerThread → Producer Key) (consumer : Consumer Key) (output : List Line) :
    SemaphoreQueue.State ProducerThread Key :=
  { queue := sh.queue.map GenData.key
    items := sh.empty
    lock := sh.critical
    producer := producer
    consumer := consumer
    entered := sh.entered.map GenData.key
    delivered := output.map Line.key }

def abstract (s : State) : SemaphoreQueue.State ProducerThread Key :=
  view s.shared (producers s.main.producer s.camera.producer) s.writer.consumer s.output

/- A step of the logger is one of the queue's, or none. -/
def Follows (q r : SemaphoreQueue.State ProducerThread Key) : Prop := r = q ∨ SemaphoreQueue.Step q r

theorem updateMain (m c n : Producer Key) : Function.update (producers m c) .main n = producers n c := by
  funext thread
  cases thread <;> simp [producers, Function.update]

theorem updateCamera (m c n : Producer Key) : Function.update (producers m c) .camera n = producers m n := by
  funext thread
  cases thread <;> simp [producers, Function.update]

theorem addPacketFollows (sh : Shared) (thread : ProducerThread) {pc : AddPacket}
    {producer : ProducerThread → Producer Key} (here : producer thread = pc.producer) (consumer : Consumer Key) (output : List Line) :
    Follows (view sh producer consumer output)
      (view (addPacketStep sh pc).1 (Function.update producer thread (addPacketStep sh pc).2.producer) consumer output) := by
  cases pc with
  | waitCritical new =>
    by_cases free : 0 < sh.critical
    · have enter := SemaphoreQueue.Step.enter (s := view sh producer consumer output) (i := thread) here free
      exact Or.inr (by simpa [view, addPacketStep, free, AddPacket.producer] using enter)
    · exact Or.inl (by simp [addPacketStep, free, ← here])
  | enqueue new =>
    have enqueue := SemaphoreQueue.Step.enqueue (s := view sh producer consumer output) (i := thread) here
    exact Or.inr (by simpa [view, addPacketStep, AddPacket.producer] using enqueue)
  | postEmpty => exact Or.inr (SemaphoreQueue.Step.post (s := view sh producer consumer output) (i := thread) here)
  | postCritical => exact Or.inr (SemaphoreQueue.Step.leave (s := view sh producer consumer output) (i := thread) here)
  | returned => exact Or.inl (by simp [addPacketStep, ← here])

theorem moveFollows {numJoints : Nat} {s t : State} {e : Event} (move : Move numJoints s e t) :
    Follows (abstract s) (abstract t) := by
  cases move with
  | add main busy =>
    have follows := addPacketFollows s.shared ProducerThread.main
      (show producers s.main.producer s.camera.producer .main = _ by rw [main]; rfl) s.writer.consumer s.output
    rwa [updateMain] at follows
  | cameraAdd camera busy =>
    have follows := addPacketFollows s.shared ProducerThread.camera
      (show producers s.main.producer s.camera.producer .camera = _ by rw [camera]; rfl) s.writer.consumer s.output
    rwa [updateCamera] at follows
  | @call text p pc =>
    have arrive := SemaphoreQueue.Step.arrive (s := abstract s) (i := ProducerThread.main) (p.type, s.timestamp)
      (by simp [abstract, view, producers, pc, MainPc.producer])
    simp only [abstract, view, updateMain] at arrive
    exact Or.inr arrive
  | @save ts pc =>
    have arrive := SemaphoreQueue.Step.arrive (s := abstract s) (i := ProducerThread.camera) (.image, ts)
      (by simp [abstract, view, producers, pc, CameraPc.producer])
    simp only [abstract, view, updateCamera] at arrive
    exact Or.inr arrive
  | goOn pc => exact Or.inr (.ask (s := abstract s) (by simp [abstract, view, pc, WriterPc.consumer]))
  | someLeft pc => exact Or.inr (.ask (s := abstract s) (by simp [abstract, view, pc, WriterPc.consumer]))
  | granted pc some => exact Or.inr (.grant (s := abstract s) (by simp [abstract, view, pc, WriterPc.consumer]) some)
  | locked pc free => exact Or.inr (.take (s := abstract s) (by simp [abstract, view, pc, WriterPc.consumer]) free)
  | dequeue pc =>
    have dequeue := SemaphoreQueue.Step.dequeue (s := abstract s) (by simp [abstract, view, pc, WriterPc.consumer])
    simp only [abstract, view, ← List.map_tail, List.head?_map] at dequeue
    exact Or.inr dequeue
  | @release d pc =>
    exact Or.inr (.release (s := abstract s) (r := d.map GenData.key) (by simp [abstract, view, pc, WriterPc.consumer]))
  | @write d pc =>
    have deliver := SemaphoreQueue.Step.deliver (s := abstract s) (r := some d.key)
      (by simp [abstract, view, pc, WriterPc.consumer])
    refine Or.inr ?_
    simpa [abstract, view, WriterPc.consumer, Line.key, GenData.key] using deliver
  | join before after =>
    rename_i pc
    have idle (pc : MainPc) (out : pc.Joining ∨ pc.Leaving) : pc.producer = .outside := by
      cases pc <;> simp_all [MainPc.Joining, MainPc.Leaving, MainPc.producer]
    simp [Follows, abstract, idle _ (Or.inl before), idle pc (Or.inr after)]
  | @returned text p pc =>
    cases p <;> exact Or.inl (by simp [abstract, pc, Packet.next, MainPc.producer, AddPacket.producer])
  | crash pc => exact Or.inl (by simp [abstract, pc, WriterPc.consumer])
  | _ => exact Or.inl (by simp_all [abstract, setCell, MainPc.producer, CameraPc.producer, AddPacket.producer, WriterPc.consumer])

theorem reachableAbstract {numJoints : Nat} {s : State} (reachable : Reachable numJoints s) :
    SemaphoreQueue.Reachable (abstract s) := by
  induction reachable with
  | initial cells =>
    have same : abstract (initial cells) = SemaphoreQueue.idle := by
      have outside : producers .outside .outside = fun _ => .outside := by
        funext thread
        cases thread <;> rfl
      simp [abstract, view, initial, SemaphoreQueue.idle, MainPc.producer, CameraPc.producer, WriterPc.consumer, outside]
    exact same ▸ .idle
  | move _ move ih =>
    rcases moveFollows move with same | step
    · exact same ▸ ih
    · exact ih.step step

/-! The order in which the main loop's records enter. -/

def iteration (t : Nat) : List Key := [(.systemPacket,t), (.jointPacket,t), (.sonarPacket,t), (.drivePacket,t)]

def schedule (n : Nat) : List Key := (List.range n).flatMap iteration

def Packet.position : Packet → Nat
  | .system => 0
  | .joint => 1
  | .sonar => 2
  | .drive => 3

def AddPacket.entered : AddPacket → Nat
  | .waitCritical _ => 0
  | _ => 1

/- How many packets of the current iteration have entered. -/
def MainPc.entered : MainPc → Nat
  | .print p _ _ | .call p => p.position
  | .add p pc => p.position + pc.entered
  | .increment => 4
  | _ => 0

/- The record a producer is about to enqueue. -/
def AddPacket.pending : AddPacket → Option GenData
  | .waitCritical new | .enqueue new => some new
  | _ => none

def MainPc.pending : MainPc → Option (Packet × GenData)
  | .add p pc => pc.pending.map fun new => (p,new)
  | _ => none

def CameraPc.pending : CameraPc → Option GenData
  | .add pc => pc.pending
  | _ => none

def notImage (key : Key) : Bool := key.1 ≠ .image

structure InOrder (s : State) : Prop where
  entered : (s.shared.entered.map GenData.key).filter notImage =
    schedule s.timestamp ++ (iteration s.timestamp).take s.main.entered
  main : ∀ p new, s.main.pending = some (p,new) → new = ⟨p.type, s.timestamp, p.cell⟩
  camera : ∀ new, s.camera.pending = some new → new.type = .image ∧ new.data = .nomefile

theorem nextEntered (p : Packet) : p.next.entered = p.position + 1 := by cases p <;> rfl

theorem nextPending (p : Packet) : p.next.pending = none := by cases p <;> rfl

theorem iterationTake (p : Packet) (t : Nat) :
    (iteration t).take (p.position + 1) = (iteration t).take p.position ++ [(p.type,t)] := by cases p <;> rfl

theorem packetNotImage (p : Packet) : p.type ≠ .image := by cases p <;> decide

theorem awayEntered {pc : MainPc} (away : pc.Joining ∨ pc.Leaving) : pc.entered = 0 ∧ pc.pending = none := by
  cases pc <;> simp_all [MainPc.Joining, MainPc.Leaving, MainPc.entered, MainPc.pending]

theorem scheduleSucc (n : Nat) : schedule (n + 1) = schedule n ++ iteration n := by
  simp [schedule, List.range_succ]

theorem InOrder.keep {s t : State} (inOrder : InOrder s) (entered : t.shared.entered = s.shared.entered)
    (timestamp : t.timestamp = s.timestamp) (progress : t.main.entered = s.main.entered)
    (main : t.main.pending = none ∨ t.main.pending = s.main.pending)
    (camera : t.camera.pending = none ∨ t.camera.pending = s.camera.pending) : InOrder t where
  entered := by rw [entered, timestamp, progress]; exact inOrder.entered
  main p new here := by
    rcases main with none | same
    · simp [none] at here
    · rw [timestamp]
      exact inOrder.main p new (same ▸ here)
  camera new here := by
    rcases camera with none | same
    · simp [none] at here
    · exact inOrder.camera new (same ▸ here)

theorem addPacketEnters (sh : Shared) (pc : AddPacket) :
    (∃ new, pc = .waitCritical new ∧ (addPacketStep sh pc).2 = .enqueue new ∧
      (addPacketStep sh pc).1.entered = sh.entered ++ [new]) ∨
    ((addPacketStep sh pc).1.entered = sh.entered ∧ (addPacketStep sh pc).2.entered = pc.entered ∧
      ((addPacketStep sh pc).2.pending = none ∨ (addPacketStep sh pc).2.pending = pc.pending)) := by
  cases pc with
  | waitCritical new =>
    by_cases free : 0 < sh.critical
    · exact Or.inl ⟨new, rfl, by simp [addPacketStep, free], by simp [addPacketStep, free]⟩
    · exact Or.inr (by simp [addPacketStep, free])
  | _ => exact Or.inr ⟨rfl, rfl, Or.inl rfl⟩

theorem moveInOrder {numJoints : Nat} {s t : State} {e : Event} (inOrder : InOrder s) (move : Move numJoints s e t) :
    InOrder t := by
  cases move with
  | @add text p pc at_ busy =>
    rcases addPacketEnters s.shared pc with ⟨new, rfl, stage, appended⟩ | ⟨same, progress, pending⟩
    · obtain rfl := inOrder.main p new (by rw [at_]; rfl)
      refine ⟨?_, fun q record here => ?_, inOrder.camera⟩
      · have entered := inOrder.entered
        simp only [at_, MainPc.entered, AddPacket.entered, Nat.add_zero] at entered
        simp [appended, stage, MainPc.entered, AddPacket.entered, iterationTake, entered, GenData.key, notImage,
          packetNotImage]
      · obtain ⟨rfl, rfl⟩ : p = q ∧ _ = record := by
          simpa [stage, MainPc.pending, AddPacket.pending] using here
        rfl
    · refine inOrder.keep same rfl (by rw [at_]; exact congrArg (p.position + ·) progress) ?_ (Or.inr rfl)
      rw [at_]
      exact pending.imp (fun none => by simp [MainPc.pending, none]) fun kept => by simp [MainPc.pending, kept]
  | @cameraAdd pc at_ busy =>
    rcases addPacketEnters s.shared pc with ⟨new, rfl, stage, appended⟩ | ⟨same, progress, pending⟩
    · have mine := inOrder.camera new (by rw [at_]; rfl)
      refine ⟨?_, inOrder.main, fun record here => ?_⟩
      · simp [appended, GenData.key, notImage, mine.1, inOrder.entered]
      · obtain rfl : new = record := by simpa [stage, CameraPc.pending, AddPacket.pending] using here
        exact mine
    · exact inOrder.keep same rfl rfl (Or.inr rfl) (by rw [at_]; exact pending)
  | @returned text p pc =>
    exact inOrder.keep rfl rfl (by rw [pc]; exact nextEntered p) (Or.inl (nextPending p)) (Or.inr rfl)
  | increment pc =>
    have entered := inOrder.entered
    refine ⟨?_, by simp [MainPc.pending], inOrder.camera⟩
    simpa [pc, MainPc.entered, scheduleSucc, iteration] using entered
  | join before after =>
    exact inOrder.keep rfl rfl ((awayEntered (Or.inr after)).1.trans (awayEntered (Or.inl before)).1.symm)
      (Or.inl (awayEntered (Or.inr after)).2) (Or.inr rfl)
  | @call text p pc =>
    have entered := inOrder.entered
    refine ⟨by simpa [pc, MainPc.entered, AddPacket.entered] using entered, fun q new here => ?_, inOrder.camera⟩
    obtain ⟨rfl, rfl⟩ : p = q ∧ _ = new := by simpa [MainPc.pending, AddPacket.pending] using here
    rfl
  | @save ts pc =>
    refine ⟨inOrder.entered, inOrder.main, fun new here => ?_⟩
    obtain rfl : _ = new := by simpa [CameraPc.pending, AddPacket.pending] using here
    exact ⟨rfl, rfl⟩
  | _ =>
    refine inOrder.keep rfl rfl ?_ ?_ ?_ <;>
      simp_all [MainPc.entered, MainPc.pending, CameraPc.pending, AddPacket.pending, setCell, Packet.position]

theorem reachableInOrder {numJoints : Nat} {s : State} (reachable : Reachable numJoints s) : InOrder s := by
  induction reachable with
  | initial cells => exact ⟨rfl, by simp [initial, MainPc.pending], by simp [initial, CameraPc.pending]⟩
  | move _ move ih => exact moveInOrder ih move

/- The consumer always finds its record, and what is written is a prefix of what
has entered; `schedule` is SYSTEM, JOINT, SONAR, DRIVE for 0, 1, 2, .. -/
structure QueueSafe (s : State) : Prop where
  found : s.writer = .dequeue → s.shared.queue ≠ []
  notNull : s.writer ≠ .print none ∧ s.writer ≠ .crashed
  written : s.output.map Line.key <+: s.shared.entered.map GenData.key
  packets : (s.output.map Line.key).filter notImage <+: schedule (s.timestamp + 1)

theorem reachableQueueSafe {numJoints : Nat} {s : State} (reachable : Reachable numJoints s) : QueueSafe s := by
  have abstractly := reachableAbstract reachable
  have written := SemaphoreQueue.deliveredPrefix abstractly
  refine ⟨fun pc none => ?_, ⟨fun pc => ?_, fun pc => ?_⟩, written, ?_⟩
  · exact SemaphoreQueue.neverDequeuesEmpty abstractly (by simp [abstract, view, pc, WriterPc.consumer])
      (by simp [abstract, view, none])
  · exact SemaphoreQueue.handFilled abstractly (r := none) (Or.inr (by simp [abstract, view, pc, WriterPc.consumer])) rfl
  · exact SemaphoreQueue.handFilled abstractly (r := none) (Or.inr (by simp [abstract, view, pc, WriterPc.consumer])) rfl
  · have entered := (reachableInOrder reachable).entered
    refine (written.filter notImage).trans ?_
    rw [show (abstract s).entered = s.shared.entered.map GenData.key from rfl, entered, scheduleSucc]
    exact (List.prefix_append_right_inj _).mpr (List.take_prefix _ _)

theorem queueSafe (numJoints : Nat) (cells : Cell → Text) (events : List Event) :
    QueueSafe (run numJoints (initial cells) events) :=
  reachableQueueSafe (runReachable (.initial cells) events)

end OrazioLogger.Logger
