import OrazioLogger.Shutdown

/-! The writer can be left waiting for a record that never comes: exactly when
Escape is read between its test and its wait, with everything written. -/
namespace OrazioLogger.Logger
open SemaphoreQueue (Consumer)

variable {numJoints : Nat} {s t : State} {e : Event}

/- `pthread_join` on the writer does not return from here. -/
structure Hung (s : State) : Prop where
  stopped : s.mode = .stop
  past : Past AddPacket.posted s
  waiting : s.writer = .waitEmpty
  empty : s.shared.empty = 0

namespace Hang

/- Escape is not read while the writer waits past its test, with nothing queued
and nothing more to come. -/
def StepClear (s : State) : Event → Prop
  | .key .esc => s.key = .getKey → ¬ (Past AddPacket.posted s ∧ s.writer = .waitEmpty ∧ s.shared.empty = 0)
  | _ => True

def RunClear (numJoints : Nat) : State → List Event → Prop := EachTurn numJoints StepClear

end Hang

theorem addPacketEmpty {sh : Shared} {pc : AddPacket} (none : (addPacketStep sh pc).1.empty = 0) : sh.empty = 0 := by
  cases pc with
  | waitCritical new => by_cases free : 0 < sh.critical <;> simpa [addPacketStep, free] using none
  | postEmpty => simp [addPacketStep] at none
  | _ => exact none

theorem postedEmpty {sh : Shared} {pc : AddPacket} (before : pc.posted = false)
    (after : (addPacketStep sh pc).2.posted = true) : 0 < (addPacketStep sh pc).1.empty := by
  cases pc with
  | waitCritical new => by_cases free : 0 < sh.critical <;> simp [addPacketStep, free, AddPacket.posted] at after
  | postEmpty => exact Nat.succ_pos _
  | _ => contradiction

theorem postedProducer {pc : AddPacket} (posted : pc.posted = true) : pc.producer.unposted = 0 := by
  cases pc <;> first | contradiction | rfl

theorem mainPosted {pc : MainPc} (past : pc.past AddPacket.posted = true) : pc.producer.unposted = 0 := by
  cases pc with
  | add p stage =>
    cases p with
    | drive => exact postedProducer past
    | _ => contradiction
  | _ => rfl

theorem cameraPosted {pc : CameraPc} (past : pc.past AddPacket.posted = true) : pc.producer.unposted = 0 := by
  cases pc with
  | add stage => exact postedProducer past
  | _ => rfl

/- A writer that finds the queue filled, with all posts done, will get its record. -/
theorem filledCounted (reachable : Reachable numJoints s) (pc : s.writer = .testEmpty) (left : s.shared.queue ≠ [])
    (past : Past AddPacket.posted s) : 0 < s.shared.empty := by
  have guarded := SemaphoreQueue.reachableGuarded (reachableAbstract reachable)
  have unclaimed : (abstract s).consumer.claim = 0 := by simp [abstract, view, pc, WriterPc.consumer, Consumer.claim]
  rcases guarded.counted unclaimed (by simpa [abstract, view] using left) with counted | ⟨thread, debt⟩
  · exact counted
  · cases thread with
    | main => exact absurd (mainPosted past.main) (Nat.ne_of_gt debt)
    | camera => exact absurd (cameraPosted past.camera) (Nat.ne_of_gt debt)

theorem moveNotHung (reachable : Reachable numJoints s) (fine : ¬ Hung s) (clear : Hang.StepClear s e)
    (move : Move numJoints s e t) : ¬ Hung t := by
  rintro ⟨stopped, past, waiting, none⟩
  rcases pastBefore lastingPosted move past with before | ⟨pc, unposted, posted, shared⟩
  · cases move with
    | @press code pc =>
      cases code with
      | esc => exact clear pc ⟨before, waiting, none⟩
      | other => exact fine ⟨stopped, before, waiting, none⟩
    | goOn pc going => exact going stopped
    | someLeft pc left =>
      have filled := filledCounted reachable pc left before
      exact absurd none (Nat.ne_of_gt filled)
    | add => exact fine ⟨stopped, before, waiting, addPacketEmpty none⟩
    | cameraAdd => exact fine ⟨stopped, before, waiting, addPacketEmpty none⟩
    | _ => first | contradiction | exact fine ⟨stopped, before, waiting, none⟩
  · rw [shared] at none
    exact absurd none (Nat.ne_of_gt (postedEmpty unposted posted))

/- Read at any other moment, Escape hangs nothing; at this one it does at once. -/
theorem unclearHung {e : Event} (unclear : ¬ Hang.StepClear s e) : Hung (step numJoints s e) := by
  unfold Hang.StepClear at unclear
  split at unclear
  · simp only [Classical.not_imp, not_not] at unclear
    obtain ⟨pc, past, waiting, none⟩ := unclear
    simp only [step, keyStep, pc, if_pos]
    exact ⟨rfl, ⟨past.main, past.camera⟩, waiting, none⟩
  · exact absurd trivial unclear

theorem neverHungFrom (reachable : Reachable numJoints s) (fine : ¬ Hung s) (events : List Event) :
    (∀ k, ¬ Hung (run numJoints s (events.take k))) ↔ Hang.RunClear numJoints s events := by
  induction events generalizing s with
  | nil => simpa [run, Hang.RunClear, EachTurn] using fine
  | cons e rest ih =>
    have reachableNext : Reachable numJoints (step numJoints s e) := stepKeeps reachable reachable.move
    have after (clear : Hang.StepClear s e) : ¬ Hung (step numJoints s e) :=
      stepKeeps fine (moveNotHung reachable fine clear)
    constructor
    · intro never
      have clear : Hang.StepClear s e := by
        by_contra unclear
        exact never 1 (unclearHung unclear)
      exact ⟨clear, (ih reachableNext (after clear)).mp fun k => never (k + 1)⟩
    · rintro ⟨clear, later⟩ k
      cases k with
      | zero => exact fine
      | succ k => exact (ih reachableNext (after clear)).mpr later k

theorem initialNotHung (cells : Cell → Text) : ¬ Hung (initial cells) := fun hung => by cases hung.stopped

theorem neverHung (numJoints : Nat) (cells : Cell → Text) (events : List Event) :
    (∀ k, ¬ Hung (run numJoints (initial cells) (events.take k))) ↔ Hang.RunClear numJoints (initial cells) events :=
  neverHungFrom (.initial cells) (initialNotHung cells) events

/- One iteration logged and written; Escape comes while the main loop is at its
test and the writer already waits for the next record. -/
def escapeAtTest : List Event :=
  List.replicate 33 (.main ['a']) ++ List.replicate 25 .writer ++
    [.key .other, .key .esc, .main [], .camera, .camera, .writer]

theorem escapeAtTestHangs :
    (run 1 (initial fun _ => []) escapeAtTest).output.length = 4 ∧
    (run 1 (initial fun _ => []) escapeAtTest).camera = .finished ∧
    Hung (run 1 (initial fun _ => []) escapeAtTest) :=
  ⟨by decide +kernel, by decide +kernel, by decide +kernel, ⟨by decide +kernel, by decide +kernel⟩, by decide +kernel,
    by decide +kernel⟩

end OrazioLogger.Logger
