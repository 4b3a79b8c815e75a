import OrazioLogger.Logger

/-! What a turn of each thread can do, once for all the invariants. -/
namespace OrazioLogger.Logger

def MainPc.Joining : MainPc → Prop
  | .joinKey | .joinJoy | .joinWriter | .joinCamera => True
  | _ => False

/- Past the loop. -/
def MainPc.Leaving : MainPc → Prop
  | .joinKey | .joinJoy | .joinWriter | .joinCamera | .finished => True
  | _ => False

inductive Move (numJoints : Nat) (s : State) : Event → State → Prop where
  | enterLoop {text} (pc : s.main = .loopTest) (going : s.mode ≠ .stop) :
      Move numJoints s (.main text) { s with main := .send }
  | exitLoop {text} (pc : s.main = .loopTest) (stopped : s.mode = .stop) :
      Move numJoints s (.main text) { s with main := .joinKey }
  | send {text} (pc : s.main = .send) : Move numJoints s (.main text) { s with main := .sync }
  | sync {text} (pc : s.main = .sync) : Move numJoints s (.main text) { s with main := .print .system 0 0 }
  | print {text p i pos} (pc : s.main = .print p i pos) (single : p ≠ .joint) :
      Move numJoints s (.main text) { setCell s p.cell text with main := .call p }
  | printJoint {text i pos} (pc : s.main = .print .joint i pos) (more : i < numJoints) :
      Move numJoints s (.main text)
        { setCell s .jointBuffer ((s.cells .jointBuffer).take pos ++ text) with
          main := .print .joint (i + 1) (pos + text.length) }
  | printedJoints {text i pos} (pc : s.main = .print .joint i pos) (all : ¬ i < numJoints) :
      Move numJoints s (.main text) { s with main := .call .joint }
  | call {text p} (pc : s.main = .call p) :
      Move numJoints s (.main text) { s with
        main := .add p (.waitCritical ⟨p.type, s.timestamp, p.cell⟩)
        formatted := Function.update s.formatted (p.type, s.timestamp) (some (s.cells p.cell)) }
  | add {text p pc} (main : s.main = .add p pc) (busy : pc ≠ .returned) :
      Move numJoints s (.main text)
        { s with shared := (addPacketStep s.shared pc).1, main := .add p (addPacketStep s.shared pc).2 }
  | returned {text p} (pc : s.main = .add p .returned) : Move numJoints s (.main text) { s with main := p.next }
  | increment {text} (pc : s.main = .increment) :
      Move numJoints s (.main text) { s with timestamp := s.timestamp + 1, main := .loopTest }
  | join {text pc} (before : s.main.Joining) (after : pc.Leaving) : Move numJoints s (.main text) { s with main := pc }
  | cameraStart (pc : s.camera = .starting) : Move numJoints s .camera { s with camera := .loopTest }
  | cameraEnter (pc : s.camera = .loopTest) (going : s.mode ≠ .stop) :
      Move numJoints s .camera { s with camera := .frame }
  | cameraExit (pc : s.camera = .loopTest) (stopped : s.mode = .stop) :
      Move numJoints s .camera { s with camera := .finished }
  | frame (pc : s.camera = .frame) : Move numJoints s .camera { s with camera := .readTimestamp }
  | readTimestamp (pc : s.camera = .readTimestamp) : Move numJoints s .camera { s with camera := .name s.timestamp }
  | name {ts} (pc : s.camera = .name ts) :
      Move numJoints s .camera { setCell s .nomefile (imageName s.timestamp) with camera := .save ts }
  | save {ts} (pc : s.camera = .save ts) :
      Move numJoints s .camera { s with camera := .add (.waitCritical ⟨.image, ts, .nomefile⟩) }
  | cameraAdd {pc} (camera : s.camera = .add pc) (busy : pc ≠ .returned) :
      Move numJoints s .camera
        { s with shared := (addPacketStep s.shared pc).1, camera := .add (addPacketStep s.shared pc).2 }
  | cameraReturned (pc : s.camera = .add .returned) : Move numJoints s .camera { s with camera := .sleep }
  | sleep (pc : s.camera = .sleep) : Move numJoints s .camera { s with camera := .loopTest }
  | goOn (pc : s.writer = .testMode) (going : s.mode ≠ .stop) :
      Move numJoints s .writer { s with writer := .waitEmpty }
  | stopped (pc : s.writer = .testMode) (stopped : s.mode = .stop) :
      Move numJoints s .writer { s with writer := .testEmpty }
  | someLeft (pc : s.writer = .testEmpty) (left : s.shared.queue ≠ []) :
      Move numJoints s .writer { s with writer := .waitEmpty }
  | noneLeft (pc : s.writer = .testEmpty) (none : s.shared.queue = []) :
      Move numJoints s .writer { s with writer := .finished }
  | granted (pc : s.writer = .waitEmpty) (some : 0 < s.shared.empty) :
      Move numJoints s .writer
        { s with shared := { s.shared with empty := s.shared.empty - 1 }, writer := .waitCritical }
  | locked (pc : s.writer = .waitCritical) (free : 0 < s.shared.critical) :
      Move numJoints s .writer
        { s with shared := { s.shared with critical := s.shared.critical - 1 }, writer := .dequeue }
  | dequeue (pc : s.writer = .dequeue) :
      Move numJoints s .writer { s with
        shared := { s.shared with queue := s.shared.queue.tail }
        writer := .postCritical s.shared.queue.head? }
  | release {d} (pc : s.writer = .postCritical d) :
      Move numJoints s .writer
        { s with shared := { s.shared with critical := s.shared.critical + 1 }, writer := .print d }
  | crash (pc : s.writer = .print none) : Move numJoints s .writer { s with writer := .crashed }
  | write {d} (pc : s.writer = .print (some d)) :
      Move numJoints s .writer
        { s with output := s.output ++ [⟨d.type, d.ts, s.cells d.data⟩], writer := .testMode }
  | keyExit {code} (pc : s.key = .testMode) (stopped : s.mode = .stop) :
      Move numJoints s (.key code) { s with key := .finished }
  | keyEnter {code} (pc : s.key = .testMode) (going : s.mode ≠ .stop) :
      Move numJoints s (.key code) { s with key := .getKey }
  | press {code} (pc : s.key = .getKey) :
      Move numJoints s (.key code) { s with mode := if code = .esc then .stop else s.mode, key := .testMode }
  | joy {opened pc} : Move numJoints s (.joy opened) { s with joy := pc }

theorem mainMove (numJoints : Nat) (text : Text) (s : State) :
    mainStep numJoints text s = s ∨ Move numJoints s (.main text) (mainStep numJoints text s) := by
  have join (after : MainPc) {before : MainPc} (pc : s.main = before) (joining : before.Joining) (leaving : after.Leaving)
      {P : Prop} [Decidable P] : (if P then { s with main := after } else s) = s ∨
      Move numJoints s (.main text) (if P then { s with main := after } else s) := by
    split
    · exact Or.inr (.join (pc ▸ joining) leaving)
    · exact Or.inl rfl
  cases pc : s.main with
  | loopTest =>
    simp only [mainStep, pc]
    split
    · exact Or.inr (.exitLoop pc (by assumption))
    · exact Or.inr (.enterLoop pc (by assumption))
  | send => simpa only [mainStep, pc] using Or.inr (.send pc)
  | sync => simpa only [mainStep, pc] using Or.inr (.sync pc)
  | print p i pos =>
    simp only [mainStep, pc]
    cases p with
    | joint =>
      simp only [printStep]
      split
      · exact Or.inr (.printJoint pc (by assumption))
      · exact Or.inr (.printedJoints pc (by assumption))
    | system => exact Or.inr (.print pc (by decide))
    | sonar => exact Or.inr (.print pc (by decide))
    | drive => exact Or.inr (.print pc (by decide))
  | call p => simpa only [mainStep, pc] using Or.inr (.call pc)
  | add p stage =>
    cases stage with
    | returned => simpa only [mainStep, pc] using Or.inr (.returned pc)
    | _ => simpa only [mainStep, pc] using Or.inr (.add pc (by simp))
  | increment => simpa only [mainStep, pc] using Or.inr (.increment pc)
  | finished => simp only [mainStep, pc, true_or]
  | joinKey => simpa only [mainStep, pc] using join .joinJoy pc trivial trivial
  | joinJoy => simpa only [mainStep, pc] using join .joinWriter pc trivial trivial
  | joinWriter => simpa only [mainStep, pc] using join .joinCamera pc trivial trivial
  | joinCamera => simpa only [mainStep, pc] using join .finished pc trivial trivial

theorem cameraMove (numJoints : Nat) (s : State) :
    cameraStep s = s ∨ Move numJoints s .camera (cameraStep s) := by
  cases pc : s.camera with
  | starting => simpa only [cameraStep, pc] using Or.inr (.cameraStart pc)
  | loopTest =>
    simp only [cameraStep, pc]
    split
    · exact Or.inr (.cameraExit pc (by assumption))
    · exact Or.inr (.cameraEnter pc (by assumption))
  | frame => simpa only [cameraStep, pc] using Or.inr (.frame pc)
  | readTimestamp => simpa only [cameraStep, pc] using Or.inr (.readTimestamp pc)
  | name ts => simpa only [cameraStep, pc] using Or.inr (.name pc)
  | save ts => simpa only [cameraStep, pc] using Or.inr (.save pc)
  | add stage =>
    cases stage with
    | returned => simpa only [cameraStep, pc] using Or.inr (.cameraReturned pc)
    | _ => simpa only [cameraStep, pc] using Or.inr (.cameraAdd pc (by simp))
  | sleep => simpa only [cameraStep, pc] using Or.inr (.sleep pc)
  | finished => simp only [cameraStep, pc, true_or]

theorem writerMove (numJoints : Nat) (s : State) :
    writerStep s = s ∨ Move numJoints s .writer (writerStep s) := by
  cases pc : s.writer with
  | testMode =>
    simp only [writerStep, pc]
    split
    · exact Or.inr (.stopped pc (by assumption))
    · exact Or.inr (.goOn pc (by assumption))
  | testEmpty =>
    simp only [writerStep, pc]
    split
    · exact Or.inr (.noneLeft pc (by assumption))
    · exact Or.inr (.someLeft pc (by assumption))
  | waitEmpty =>
    simp only [writerStep, pc]
    split
    · exact Or.inr (.granted pc (by assumption))
    · exact Or.inl rfl
  | waitCritical =>
    simp only [writerStep, pc]
    split
    · exact Or.inr (.locked pc (by assumption))
    · exact Or.inl rfl
  | dequeue => simpa only [writerStep, pc] using Or.inr (.dequeue pc)
  | postCritical d => simpa only [writerStep, pc] using Or.inr (.release pc)
  | print d =>
    cases d with
    | none => simpa only [writerStep, pc] using Or.inr (.crash pc)
    | some d => simpa only [writerStep, pc] using Or.inr (.write pc)
  | crashed => simp only [writerStep, pc, true_or]
  | finished => simp only [writerStep, pc, true_or]

theorem keyMove (numJoints : Nat) (code : KeyCode) (s : State) :
    keyStep code s = s ∨ Move numJoints s (.key code) (keyStep code s) := by
  cases pc : s.key with
  | testMode =>
    simp only [keyStep, pc]
    split
    · exact Or.inr (.keyExit pc (by assumption))
    · exact Or.inr (.keyEnter pc (by assumption))
  | getKey => simpa only [keyStep, pc] using Or.inr (.press pc)
  | finished => simp only [keyStep, pc, true_or]

theorem joyMove (numJoints : Nat) (opened : Bool) (s : State) :
    joyStep opened s = s ∨ Move numJoints s (.joy opened) (joyStep opened s) := by
  cases pc : s.joy with
  | finished => simp only [joyStep, pc, true_or]
  | _ => simpa only [joyStep, pc] using Or.inr .joy

theorem stepMove (numJoints : Nat) (s : State) (e : Event) :
    step numJoints s e = s ∨ Move numJoints s e (step numJoints s e) := by
  cases e with
  | main text => exact mainMove numJoints text s
  | camera => exact cameraMove numJoints s
  | writer => exact writerMove numJoints s
  | key code => exact keyMove numJoints code s
  | joy opened => exact joyMove numJoints opened s

/- What every move keeps, every turn and every run keep. -/
theorem stepKeeps {numJoints : Nat} {s : State} {e : Event} {I : State → Prop} (start : I s)
    (keeps : ∀ {t}, Move numJoints s e t → I t) : I (step numJoints s e) := by
  rcases stepMove numJoints s e with same | move
  · rw [same]
    exact start
  · exact keeps move

theorem runKeeps {numJoints : Nat} {s : State} {I : State → Prop} (start : I s)
    (keeps : ∀ {s t e}, I s → Move numJoints s e t → I t) (events : List Event) : I (run numJoints s events) := by
  induction events generalizing s with
  | nil => exact start
  | cons e rest ih => exact ih (stepKeeps start (keeps start))

/- A condition on the turns of a run, met by each of them. -/
def EachTurn (numJoints : Nat) (clear : State → Event → Prop) : State → List Event → Prop
  | _, [] => True
  | s, e :: rest => clear s e ∧ EachTurn numJoints clear (step numJoints s e) rest

def decideEachTurn (numJoints : Nat) (clear : State → Event → Prop) [∀ s e, Decidable (clear s e)] :
    (s : State) → (events : List Event) → Decidable (EachTurn numJoints clear s events)
  | _, [] => inferInstanceAs (Decidable True)
  | s, e :: rest =>
    have := decideEachTurn numJoints clear (step numJoints s e) rest
    inferInstanceAs (Decidable (clear s e ∧ _))
instance (numJoints clear s events) [∀ s e, Decidable (clear s e)] : Decidable (EachTurn numJoints clear s events) :=
  decideEachTurn numJoints clear s events

inductive Reachable (numJoints : Nat) : State → Prop where
  | initial (cells : Cell → Text) : Reachable numJoints (initial cells)
  | move {s t : State} {e : Event} (reachable : Reachable numJoints s) (move : Move numJoints s e t) :
      Reachable numJoints t

theorem runReachable {numJoints : Nat} {s : State} (reachable : Reachable numJoints s) (events : List Event) :
    Reachable numJoints (run numJoints s events) := runKeeps reachable .move events

end OrazioLogger.Logger
