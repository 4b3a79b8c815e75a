import OrazioLogger.LoggerQueue

/-! The producers once the mode is Stop: how far each is from its last record. -/
namespace OrazioLogger.Logger

def AddPacket.enqueued : AddPacket → Bool
  | .waitCritical _ | .enqueue _ => false
  | _ => true

def AddPacket.posted : AddPacket → Bool
  | .postCritical | .returned => true
  | _ => false

/- The places from which, in mode Stop, no further packet is added; in an
`addPacket` that may be the last one, from where `done` holds. -/
def MainPc.past (done : AddPacket → Bool) : MainPc → Bool
  | .loopTest | .increment | .joinKey | .joinJoy | .joinWriter | .joinCamera | .finished => true
  | .add .drive pc => done pc
  | _ => false

def CameraPc.past (done : AddPacket → Bool) : CameraPc → Bool
  | .starting | .loopTest | .sleep | .finished => true
  | .add pc => done pc
  | _ => false

structure Past (done : AddPacket → Bool) (s : State) : Prop where
  main : s.main.past done = true
  camera : s.camera.past done = true
instance (done s) : Decidable (Past done s) :=
  decidable_of_iff (s.main.past done = true ∧ s.camera.past done = true) ⟨fun h => ⟨h.1, h.2⟩, fun h => ⟨h.main, h.camera⟩⟩

theorem awayPast {pc : MainPc} (away : pc.Joining ∨ pc.Leaving) (done : AddPacket → Bool) : pc.past done = true := by
  cases pc <;> simp_all [MainPc.Joining, MainPc.Leaving, MainPc.past]

/- A point of `addPacket` that lies between its first line and its last. -/
structure Lasting (done : AddPacket → Bool) : Prop where
  waiting : ∀ new, done (.waitCritical new) = false
  returned : done .returned = true
  closed : ∀ sh pc, done pc = true → done (addPacketStep sh pc).2 = true

theorem lastingEnqueued : Lasting AddPacket.enqueued := by
  refine ⟨fun _ => rfl, rfl, fun sh pc enqueued => ?_⟩
  cases pc <;> first | contradiction | rfl

theorem lastingPosted : Lasting AddPacket.posted := by
  refine ⟨fun _ => rfl, rfl, fun sh pc posted => ?_⟩
  cases pc <;> first | contradiction | rfl

variable {numJoints : Nat} {s t : State} {e : Event} {done : AddPacket → Bool}

/- Nothing turns back in mode Stop. -/
theorem pastStays (lasting : Lasting done) (stopped : s.mode = .stop) (past : Past done s) (move : Move numJoints s e t) :
    Past done t := by
  obtain ⟨main, camera⟩ := past
  cases move with
  | @add text p pc at_ busy =>
    refine ⟨?_, camera⟩
    rw [at_] at main
    cases p with
    | drive => exact lasting.closed s.shared pc main
    | _ => contradiction
  | @cameraAdd pc at_ busy =>
    rw [at_] at camera
    exact ⟨main, lasting.closed s.shared pc camera⟩
  | @returned text p pc =>
    rw [pc] at main
    cases p with
    | drive => exact ⟨rfl, camera⟩
    | _ => contradiction
  | join before after => exact ⟨awayPast (Or.inr after) done, camera⟩
  | _ => constructor <;> simp_all [MainPc.past, CameraPc.past]

/- The only way past is to get there within an `addPacket`. -/
theorem pastBefore (lasting : Lasting done) (move : Move numJoints s e t) (past : Past done t) :
    Past done s ∨ ∃ pc, done pc = false ∧ done (addPacketStep s.shared pc).2 = true ∧
      t.shared = (addPacketStep s.shared pc).1 := by
  obtain ⟨main, camera⟩ := past
  cases move with
  | @add text p pc at_ busy =>
    cases p with
    | drive =>
      cases before : done pc with
      | true => exact Or.inl ⟨by rw [at_]; exact before, camera⟩
      | false => exact Or.inr ⟨pc, before, main, rfl⟩
    | _ => contradiction
  | @cameraAdd pc at_ busy =>
    cases before : done pc with
    | true => exact Or.inl ⟨main, by rw [at_]; exact before⟩
    | false => exact Or.inr ⟨pc, before, camera, rfl⟩
  | @returned text p pc =>
    cases p with
    | drive => exact Or.inl ⟨by rw [pc]; exact lasting.returned, camera⟩
    | _ => contradiction
  | @call text p pc =>
    cases p with
    | drive => exact absurd main (by simp [MainPc.past, lasting.waiting])
    | _ => contradiction
  | save pc => exact absurd camera (by simp [CameraPc.past, lasting.waiting])
  | cameraReturned pc => exact Or.inl ⟨main, by rw [pc]; exact lasting.returned⟩
  | join before after => exact Or.inl ⟨awayPast (Or.inl before) done, camera⟩
  | _ => refine Or.inl ⟨?_, ?_⟩ <;> simp_all [MainPc.past, CameraPc.past, setCell]

end OrazioLogger.Logger
