import OrazioLogger.Shutdown

/-! The writer can leave before the last records come: exactly when it finds the
queue empty while a producer is still to enqueue. -/
namespace OrazioLogger.Logger
open SemaphoreQueue (Producer)

variable {numJoints : Nat} {s t : State} {e : Event}

structure AllFinished (s : State) : Prop where
  main : s.main = .finished
  camera : s.camera = .finished
  writer : s.writer = .finished
  key : s.key = .finished
  joy : s.joy = .finished

/- Every record that entered the queue is in the file. -/
def Complete (s : State) : Prop := s.output.map Line.key = s.shared.entered.map GenData.key
instance (s) : Decidable (Complete s) := by unfold Complete; infer_instance

namespace Drain

/- The writer only leaves when both producers have enqueued their last record. -/
def StepClear (s : State) : Event → Prop
  | .writer => s.writer = .testEmpty → s.shared.queue = [] → Past AddPacket.enqueued s
  | _ => True

def RunClear (numJoints : Nat) : State → List Event → Prop := EachTurn numJoints StepClear

end Drain

/- A writer that tests the queue has seen Stop. -/
theorem testingStopped (reachable : Reachable numJoints s) (pc : s.writer = .testEmpty ∨ s.writer = .finished) :
    s.mode = .stop := by
  induction reachable with
  | initial cells => rcases pc with pc | pc <;> cases pc
  | move _ move ih =>
    cases move with
    | stopped _ stop => exact stop
    | noneLeft before => exact ih (Or.inl before)
    | @press code _ =>
      have before := ih pc
      simp only [before, ite_self]
    | _ => first | exact ih pc | simp at pc

theorem addPacketQueue {sh : Shared} {pc : AddPacket} (past : pc.enqueued = true) :
    (addPacketStep sh pc).1.queue = sh.queue := by
  cases pc <;> first | contradiction | rfl

theorem enqueuedFilled {sh : Shared} {pc : AddPacket} (before : pc.enqueued = false)
    (after : (addPacketStep sh pc).2.enqueued = true) : (addPacketStep sh pc).1.queue ≠ [] := by
  cases pc with
  | waitCritical new => by_cases free : 0 < sh.critical <;> simp [addPacketStep, free, AddPacket.enqueued] at after
  | enqueue new => simp [addPacketStep]
  | _ => contradiction

theorem addPacketKeeps (sh : Shared) (pc : AddPacket) (filled : sh.queue ≠ []) : (addPacketStep sh pc).1.queue ≠ [] := by
  cases pc with
  | waitCritical new => by_cases free : 0 < sh.critical <;> simpa [addPacketStep, free] using filled
  | enqueue new => simp [addPacketStep]
  | _ => exact filled

/- Once the writer has gone: the queue stays empty, or it keeps what comes. -/
structure Drained (s : State) : Prop where
  writer : s.writer = .finished
  empty : s.shared.queue = []
  past : Past AddPacket.enqueued s

structure Lost (s : State) : Prop where
  writer : s.writer = .finished
  kept : s.shared.queue ≠ [] ∨ ¬ Past AddPacket.enqueued s

theorem moveDrained (reachable : Reachable numJoints s) (drained : Drained s) (move : Move numJoints s e t) : Drained t := by
  have past := pastStays lastingEnqueued (testingStopped reachable (Or.inr drained.writer)) drained.past move
  obtain ⟨writer, empty, before⟩ := drained
  cases move with
  | @add text p pc at_ busy =>
    have here : pc.enqueued = true := by
      have main := before.main
      rw [at_] at main
      cases p <;> first | exact main | contradiction
    exact ⟨writer, (addPacketQueue here).trans empty, past⟩
  | @cameraAdd pc at_ busy =>
    have here : pc.enqueued = true := by
      have camera := before.camera
      rwa [at_] at camera
    exact ⟨writer, (addPacketQueue here).trans empty, past⟩
  | _ => first | exact ⟨writer, empty, past⟩ | simp_all

theorem moveLost (lost : Lost s) (move : Move numJoints s e t) : Lost t := by
  obtain ⟨writer, kept⟩ := lost
  have later : Past AddPacket.enqueued t → Past AddPacket.enqueued s ∨ t.shared.queue ≠ [] := fun past =>
    (pastBefore lastingEnqueued move past).imp id fun ⟨_, before, after, shared⟩ => shared ▸ enqueuedFilled before after
  have filled (same : s.shared.queue ≠ [] → t.shared.queue ≠ []) : t.shared.queue ≠ [] ∨ ¬ Past AddPacket.enqueued t := by
    by_cases past : Past AddPacket.enqueued t
    · rcases later past with before | here
      · exact Or.inl (same (kept.resolve_right (not_not_intro before)))
      · exact Or.inl here
    · exact Or.inr past
  cases move with
  | add => exact ⟨writer, filled (addPacketKeeps _ _)⟩
  | cameraAdd => exact ⟨writer, filled (addPacketKeeps _ _)⟩
  | _ => first | exact ⟨writer, filled id⟩ | simp_all

theorem finishedStays (finished : s.writer = .finished) (move : Move numJoints s e t) : t.writer = .finished := by
  cases move <;> simp_all [setCell]

theorem finishedBefore (finished : t.writer = .finished) (move : Move numJoints s e t) :
    s.writer = .finished ∨ (e = .writer ∧ s.writer = .testEmpty ∧ s.shared.queue = []) := by
  cases move <;> simp_all [setCell]

theorem runFinishedClear (finished : s.writer = .finished) (events : List Event) : Drain.RunClear numJoints s events := by
  induction events generalizing s with
  | nil => trivial
  | cons e rest ih =>
    refine ⟨?_, ih ?_⟩
    · cases e <;> simp [Drain.StepClear, finished]
    · exact stepKeeps finished (finishedStays finished)

theorem runDrained (reachable : Reachable numJoints s) (drained : Drained s) (events : List Event) :
    Drained (run numJoints s events) := by
  have both := runKeeps (I := fun s => Reachable numJoints s ∧ Drained s) ⟨reachable, drained⟩
    (fun now move => ⟨now.1.move move, moveDrained now.1 now.2 move⟩) events
  exact both.2

theorem runLost (numJoints : Nat) (lost : Lost s) (events : List Event) : Lost (run numJoints s events) :=
  runKeeps lost moveLost events

theorem finishedPast (finished : AllFinished s) : Past AddPacket.enqueued s :=
  ⟨by rw [finished.main]; rfl, by rw [finished.camera]; rfl⟩

/- The writer's last turn decides what is left in the queue at the end. -/
theorem drainedFrom (reachable : Reachable numJoints s) (running : s.writer ≠ .finished) (events : List Event)
    (finished : AllFinished (run numJoints s events)) :
    (run numJoints s events).shared.queue = [] ↔ Drain.RunClear numJoints s events := by
  induction events generalizing s with
  | nil => exact absurd finished.writer running
  | cons e rest ih =>
    by_cases leaves : e = .writer ∧ s.writer = .testEmpty ∧ s.shared.queue = []
    · obtain ⟨rfl, pc, empty⟩ := leaves
      have left : step numJoints s .writer = { s with writer := .finished } := by simp [step, writerStep, pc, empty]
      have move : Move numJoints s .writer { s with writer := .finished } := .noneLeft pc empty
      simp only [Drain.RunClear, EachTurn, run, left] at finished ⊢
      by_cases past : Past AddPacket.enqueued s
      · have drained := runDrained (reachable.move move) ⟨rfl, empty, ⟨past.main, past.camera⟩⟩ rest
        exact ⟨fun _ => ⟨fun _ _ => past, runFinishedClear rfl rest⟩, fun _ => drained.empty⟩
      · have lost : Lost { s with writer := .finished } := ⟨rfl, Or.inr fun after => past ⟨after.main, after.camera⟩⟩
        have kept := (runLost numJoints lost rest).kept.resolve_right (not_not_intro (finishedPast finished))
        exact ⟨fun none => absurd none kept, fun clear => absurd (clear.1 pc empty) past⟩
    · have clear : Drain.StepClear s e := by
        cases e <;> simp_all [Drain.StepClear]
      have reachableNext := stepKeeps reachable reachable.move (e := e)
      have runningNext : (step numJoints s e).writer ≠ .finished :=
        stepKeeps (I := fun t => t.writer ≠ .finished) running fun move gone =>
          (finishedBefore gone move).elim running leaves
      simp only [Drain.RunClear, EachTurn, run] at finished ⊢
      rw [ih reachableNext runningNext finished]
      exact ⟨fun later => ⟨clear, later⟩, And.right⟩

theorem completeDrained (reachable : Reachable numJoints s) (finished : AllFinished s) :
    Complete s ↔ s.shared.queue = [] := by
  have guarded := SemaphoreQueue.reachableGuarded (reachableAbstract reachable)
  have settled : s.shared.entered.map GenData.key = s.output.map Line.key ++ s.shared.queue.map GenData.key := by
    refine guarded.settled ?_ fun thread => ?_
    · simp [abstract, view, finished.writer, WriterPc.consumer, SemaphoreQueue.Consumer.hand]
    · cases thread with
      | main => simp [abstract, view, producers, finished.main, MainPc.producer, Producer.unstored]
      | camera => simp [abstract, view, producers, finished.camera, CameraPc.producer, Producer.unstored]
  rw [Complete, settled]
  simp

theorem completeWhenClear (numJoints : Nat) (cells : Cell → Text) (events : List Event)
    (finished : AllFinished (run numJoints (initial cells) events)) :
    Complete (run numJoints (initial cells) events) ↔ Drain.RunClear numJoints (initial cells) events := by
  have reachable : Reachable numJoints (initial cells) := .initial cells
  rw [completeDrained (runReachable reachable events) finished]
  exact drainedFrom reachable (by simp [initial]) events finished

/- From Escape on: key and joystick threads, then the writer, end before `rest`. -/
def escape (rest : List Event) : List Event :=
  [.key .other, .key .esc, .key .other, .joy false, .writer, .writer] ++ rest

/- A frame and one iteration of the main loop; after Escape the writer is left with their
five records, writes them and leaves. -/
def quietShutdown : List Event :=
  List.replicate 12 .camera ++ List.replicate 33 (.main ['a']) ++
    escape (List.replicate 35 .writer ++ [.camera, .camera] ++ List.replicate 6 (.main []))

theorem quietShutdownComplete :
    let s := run 1 (initial fun _ => []) quietShutdown
    (Complete s ↔ Drain.RunClear 1 (initial fun _ => []) quietShutdown) ∧
    Drain.RunClear 1 (initial fun _ => []) quietShutdown ∧
    s.output.map Line.key = (.image, 0) :: iteration 0 := by
  intro s
  have clear := completeWhenClear 1 (fun _ => []) quietShutdown
    ⟨by decide +kernel, by decide +kernel, by decide +kernel, by decide +kernel, by decide +kernel⟩
  have complete : Complete s := by decide +kernel
  exact ⟨clear, clear.mp complete, by decide +kernel⟩

/- Escape after the first SYSTEM line has been written: the writer finds the queue
empty and leaves, the main loop goes on to JOINT, SONAR and DRIVE. -/
def hastyShutdown : List Event :=
  List.replicate 10 (.main ['a']) ++ List.replicate 6 .writer ++
    escape (List.replicate 24 (.main ['a']) ++ [.camera, .camera] ++ List.replicate 4 (.main []))

theorem hastyShutdownLoses :
    AllFinished (run 1 (initial fun _ => []) hastyShutdown) ∧
    (run 1 (initial fun _ => []) hastyShutdown).output.map Line.key = [(.systemPacket, 0)] ∧
    (run 1 (initial fun _ => []) hastyShutdown).shared.entered.map GenData.key = iteration 0 ∧
    ¬ Complete (run 1 (initial fun _ => []) hastyShutdown) :=
  ⟨⟨by decide +kernel, by decide +kernel, by decide +kernel, by decide +kernel, by decide +kernel⟩,
    by decide +kernel, by decide +kernel, by decide +kernel⟩

end OrazioLogger.Logger
