import OrazioLogger.AwaitedAnswer
import OrazioLogger.Logger

/-! orazio_logger.c: the velocities the input threads leave in `drive_control` and
the main loop sends. An assignment to a field, a test of `header.seq` and an
`OrazioClient_sendPacket` are one step each; the rest of an iteration of the main
loop is one step too, as it does not touch `drive_control`. -/
namespace OrazioLogger.DriveCommand
open OrazioPackets

/- What the threads do with velocities: `+=0.1` and `-=0.1`, and the arithmetic of the joystick. -/
structure Arithmetic (V : Type) where
  zero : V
  one : V
  two : V
  faster : V → V
  slower : V → V
  times : V → V → V
  tvOfAxis : Int → V
  rvOfAxis : Int → V

structure DriveControl (V : Type) where
  seq : PacketSeq
  translationalVelocity : V
  rotationalVelocity : V

/- A statement of an input thread. -/
inductive Action (V : Type) where
  | translationalVelocity (f : V → V)
  | rotationalVelocity (f : V → V)
  | seq (n : PacketSeq)
  | sendPacket
  | stop

inductive KeyCode where
  | esc | arrowUp | arrowDown | arrowRight | arrowLeft | other
  deriving DecidableEq, Repr

structure JoyArgs where
  tvAxis : Int
  rvAxis : Int
  boostButton : Int
  haltButton : Int

structure JsEvent where
  number : Int
  value : Int
  type : Int

/- The local variables of `joyThread`. -/
structure Joystick (V : Type) where
  tv : V
  rv : V
  gain : V

section Events
variable {V : Type} (ops : Arithmetic V)

def stopRobot : List (Action V) :=
  [.seq 0, .translationalVelocity fun _ => ops.zero, .rotationalVelocity fun _ => ops.zero, .sendPacket]

def keyActions : KeyCode → List (Action V)
  | .esc => [.stop]
  | .arrowUp => [.translationalVelocity ops.faster, .seq 1]
  | .arrowDown => [.translationalVelocity ops.slower, .seq 1]
  | .arrowRight => [.rotationalVelocity ops.slower, .seq 1]
  | .arrowLeft => [.rotationalVelocity ops.faster, .seq 1]
  | .other => stopRobot ops

def joyArgs : JoyArgs := ⟨1,3,4,5⟩

def joyLocals (args : JoyArgs) (j : Joystick V) (e : JsEvent) : Joystick V :=
  let j := if e.number = args.tvAxis ∧ e.type = 2 then { j with tv := ops.tvOfAxis e.value } else j
  let j := if e.number = args.rvAxis ∧ e.type = 2 then { j with rv := ops.rvOfAxis e.value } else j
  if e.number = args.haltButton ∧ e.type = 1 then { j with tv := ops.zero, rv := ops.zero }
  else if e.number = args.boostButton ∧ e.type = 1 then { j with gain := if e.value ≠ 0 then ops.two else ops.one }
  else j

def joyActions (j : Joystick V) : List (Action V) :=
  [.rotationalVelocity fun _ => ops.times j.rv j.gain, .translationalVelocity fun _ => ops.times j.tv j.gain, .seq 1]

end Events

/- `handling` has what the thread still has to do for its last event. -/
inductive ThreadPc (V : Type) where
  | opening | testMode | waiting
  | handling (left : List (Action V))
  | finished

def ThreadPc.isFinished {V : Type} : ThreadPc V → Bool
  | .finished => true
  | _ => false

/- After the loop, the main thread joins the others and stops the robot itself. -/
inductive MainPc (V : Type) where
  | loopTest | testSeq | send | clearSeq | sync | join
  | stopping (left : List (Action V))
  | finished

/- `txSize` is what waits in the transmit buffer of the client; `enqueued` is history: the
velocities of the packets put there. -/
structure State (V : Type) where
  mode : Logger.Mode
  control : DriveControl V
  globalSeq : PacketSeq
  txSize : Nat
  enqueued : List (V × V)
  joystick : Joystick V
  main : MainPc V
  key : ThreadPc V
  joy : ThreadPc V

/- A turn of one thread: `none` when there is no key and no joystick event. -/
inductive Event where
  | main | key (code : Option KeyCode) | joy (opened : Bool) (e : Option JsEvent)

section Steps
variable {V : Type} (ops : Arithmetic V)

/- The transmit buffer has no room for a drive control packet and its three bytes of framing. -/
def Full (s : State V) : Prop := packetSizeMax.toNat - s.txSize < sizeofDifferentialDriveControlPacket.toNat + 3

instance (s : State V) : Decidable (Full s) := by unfold Full; infer_instance

/- `OrazioClient_sendPacket(client, &drive_control, 0)`; the number is stored even when the buffer is full. -/
def sendPacket (s : State V) : State V :=
  let seq := s.globalSeq + 1
  let s := { s with globalSeq := seq, control := { s.control with seq := seq } }
  if Full s then s
  else { s with
    txSize := s.txSize + (sizeofDifferentialDriveControlPacket.toNat + 3)
    enqueued := s.enqueued ++ [(s.control.translationalVelocity, s.control.rotationalVelocity)] }

def act (s : State V) : Action V → State V
  | .translationalVelocity f =>
    { s with control := { s.control with translationalVelocity := f s.control.translationalVelocity } }
  | .rotationalVelocity f => { s with control := { s.control with rotationalVelocity := f s.control.rotationalVelocity } }
  | .seq n => { s with control := { s.control with seq := n } }
  | .sendPacket => sendPacket s
  | .stop => { s with mode := .stop }

def mainStep (s : State V) : State V :=
  match s.main with
  | .loopTest => { s with main := if s.mode = .stop then .join else .testSeq }
  | .testSeq => { s with main := if s.control.seq ≠ 0 then .send else .sync }
  | .send => { sendPacket s with main := .clearSeq }
  | .clearSeq => { s with control := { s.control with seq := 0 }, main := .sync }
  | .sync => { s with txSize := 0, main := .loopTest }
  | .join =>
    if s.key.isFinished && s.joy.isFinished then { s with main := .stopping (stopRobot ops) } else s
  | .stopping [] => { s with txSize := 0, main := .finished }
  | .stopping (a :: left) => { act s a with main := .stopping left }
  | .finished => s

def keyStep (code : Option KeyCode) (s : State V) : State V :=
  match s.key with
  | .opening => { s with key := .testMode }
  | .testMode => { s with key := if s.mode = .stop then .finished else .waiting }
  | .waiting =>
    match code with
    | none => s
    | some code => { s with key := .handling (keyActions ops code) }
  | .handling [] => { s with key := .testMode }
  | .handling (a :: left) => { act s a with key := .handling left }
  | .finished => s

def joyStep (opened : Bool) (e : Option JsEvent) (s : State V) : State V :=
  match s.joy with
  | .opening => { s with joy := if opened then .testMode else .finished }
  | .testMode => { s with joy := if s.mode = .stop then .finished else .waiting }
  | .waiting =>
    match e with
    | none => { s with joy := .testMode }
    | some e =>
      let j := joyLocals ops joyArgs s.joystick e
      { s with joystick := j, joy := .handling (joyActions ops j) }
  | .handling [] => { s with joy := .testMode }
  | .handling (a :: left) => { act s a with joy := .handling left }
  | .finished => s

def step (s : State V) : Event → State V
  | .main => mainStep ops s
  | .key code => keyStep ops code s
  | .joy opened e => joyStep ops opened e s

def run (s : State V) : List Event → State V
  | [] => s
  | e :: rest => run (step ops s e) rest

/- The threads have been created; the client has been used, but no drive control packet was sent yet. -/
def initial (globalSeq : PacketSeq) (txSize : Nat) : State V :=
  { mode := .start
    control := ⟨1, ops.zero, ops.zero⟩
    globalSeq := globalSeq
    txSize := txSize
    enqueued := []
    joystick := ⟨ops.zero, ops.zero, ops.one⟩
    main := .loopTest
    key := .opening
    joy := .opening }

end Steps

section Send
variable {V : Type} {s : State V}

theorem sendPacketFull (full : Full s) :
    sendPacket s = { s with globalSeq := s.globalSeq + 1, control := { s.control with seq := s.globalSeq + 1 } } :=
  if_pos full

end Send

/-! The packet and the transmit buffer are those of the client. -/

structure InClient (cl : OrazioClient) (p : ByteMemory.Addr) (s : State UInt32) : Prop where
  globalSeq : cl.globalSeq = s.globalSeq
  txSize : cl.packetHandler.tx.size = s.txSize
  seq : OrazioClient.load16 cl.memory (p + 2) = s.control.seq
  translationalVelocity : OrazioClient.load32 cl.memory (p + 4) = s.control.translationalVelocity
  rotationalVelocity : OrazioClient.load32 cl.memory (p + 8) = s.control.rotationalVelocity

theorem sendPacketInClient {cl : OrazioClient} {p : ByteMemory.Addr} {s : State UInt32} (same : InClient cl p s)
    (type : cl.memory p = differentialDriveControlPacketId)
    (size : cl.memory (p + 1) = sizeofDifferentialDriveControlPacket)
    (sizes : cl.packetSizes = OrazioClient.sendSizes) (free : cl.writeMutex = false)
    (ring : RingBuffer.Valid packetSizeMax cl.packetHandler.tx) :
    ∃ status later, OrazioClient.sendPacket cl p 0 = .ok (status, later) ∧ InClient later p (sendPacket s) ∧
      (status = .success ↔ ¬ Full s) := by
  let numbered := OrazioClient.store16 cl.memory (p + 2) (cl.globalSeq + 1)
  have bytes : numbered (p + 1) = sizeofDifferentialDriveControlPacket :=
    ((OrazioClient.SameBelow.refl (p + 2) cl.memory).store16 (Nat.le_refl _) _ _ (Nat.lt_succ_self _)).trans size
  have kept (i : Nat) : numbered (p + (i + 4)) = cl.memory (p + (i + 4)) := by
    have first : p + (i + 4) ≠ p + 2 := Nat.ne_of_gt (Nat.add_lt_add_left (by omega) p)
    have second : p + (i + 4) ≠ p + 2 + 1 := Nat.ne_of_gt (Nat.add_lt_add_left (show 3 < i + 4 by omega) p)
    exact (ByteMemory.storeOther _ second).trans (ByteMemory.storeOther _ first)
  have velocity (i : Nat) : OrazioClient.load32 numbered (p + (i + 4)) = OrazioClient.load32 cl.memory (p + (i + 4)) := by
    simp only [OrazioClient.load32, OrazioClient.load16, Nat.add_assoc]
    rw [kept i, kept (i + 1), kept (i + 2), kept (i + 3)]
  have known : (cl.memory p).toNat < packetTypeMax := by rw [type]; decide
  have outbound : cl.packetSizes (cl.memory p) ≠ 0 := by rw [type, sizes]; decide
  have sized : cl.memory (p + 1) = cl.packetSizes (cl.memory p) := by rw [type, size, sizes]; rfl
  have call : OrazioClient.sendPacket cl p 0 = .ok ((PacketHandler.sendPacket numbered cl.packetHandler p).1,
      { cl with
        globalSeq := cl.globalSeq + 1, memory := numbered, writeMutex := false
        packetHandler := (PacketHandler.sendPacket numbered cl.packetHandler p).2 }) := by
    rw [OrazioClient.sendPacket, if_pos rfl, Outcome.bindOk (OrazioClient.lockWriteOk free),
      @OrazioClient.enqueuePacketChecked { cl with writeMutex := true } p known outbound sized]
    rfl
  have full : Full s ↔ packetSizeMax - cl.packetHandler.tx.size < (numbered (p + 1)).toNat + 3 := by
    rw [bytes, same.txSize]
    change 254 - s.txSize < 15 ↔ (254 : Int) - s.txSize < 15
    omega
  have number : OrazioClient.load16 numbered (p + 2) = s.globalSeq + 1 := by
    rw [OrazioClient.load16Store16, same.globalSeq]
  have translational := (velocity 0).trans same.translationalVelocity
  have rotational := (velocity 4).trans same.rotationalVelocity
  refine ⟨_, _, call, ?_, ?_⟩
  · by_cases short : Full s
    · rw [sendPacketFull short, PacketHandler.sendPacketRefused (full.mp short)]
      exact ⟨congrArg (· + 1) same.globalSeq, same.txSize, number, translational, rotational⟩
    · have sent : sendPacket s = _ := if_neg short
      have room := Int.not_lt.mp fun h => short (full.mpr h)
      rw [sent]
      refine ⟨congrArg (· + 1) same.globalSeq, ?_, number, translational, rotational⟩
      refine (PacketHandler.sendPacketSize numbered p ring room).trans ?_
      rw [bytes, same.txSize]
      rfl
  · rw [OrazioClient.sendPacketSuccess, full, Int.not_lt]

/-! Nothing is lost as long as the flag is not cleared behind the back of an input thread. -/

section Delivery
variable {V : Type} {ops : Arithmetic V} {s : State V}

/- The last packet enqueued has the velocities of `drive_control`. -/
def Delivered (s : State V) : Prop :=
  s.enqueued.getLast? = some (s.control.translationalVelocity, s.control.rotationalVelocity)

def ThreadPc.left : ThreadPc V → List (Action V)
  | .handling left => left
  | _ => []

def MainPc.inLoop : MainPc V → Bool
  | .loopTest | .testSeq | .send | .clearSeq | .sync => true
  | .join | .stopping _ | .finished => false

/- It sets the flag, or sends the packet itself. -/
def Action.announces : Action V → Bool
  | .seq n => n ≠ 0
  | .sendPacket => true
  | _ => false

def Owes (left : List (Action V)) : Prop := ∃ a ∈ left, a.announces = true

/- What an input thread does to `drive_control` it announces afterwards. -/
def Announced : List (Action V) → Prop
  | [] => True
  | .stop :: rest => Announced rest
  | a :: rest => (a.announces = false → Owes rest) ∧ Announced rest

/- Neither thread is in the middle of an event. -/
structure Settled (s : State V) : Prop where
  key : s.key.left = []
  joy : s.joy.left = []

/- The next action of an input thread is not lost: when it raises the flag after the main loop has sent and before it
clears the flag, and when its own packet finds no room then or gets the number 0, the velocities sent last
are these, or an input thread has more to announce. -/
def CarefulAction (s : State V) (others : List (Action V)) : List (Action V) → Prop
  | .seq n :: rest => n ≠ 0 → s.main = .clearSeq → Delivered s ∨ Owes rest ∨ Owes others
  | .sendPacket :: rest =>
    Full s → s.main = .clearSeq ∨ (s.globalSeq + 1 = 0 ∧ s.main ≠ .send) → Delivered s ∨ Owes rest ∨ Owes others
  | _ => True

/- The main loop does not clear the flag of a packet that found no room. -/
def Careful (s : State V) : Event → Prop
  | .main => s.main = .send → Full s → Delivered s ∨ Owes s.key.left ∨ Owes s.joy.left
  | .key _ => CarefulAction s s.joy.left s.key.left
  | .joy _ _ => CarefulAction s s.key.left s.joy.left

def CarefulRun (ops : Arithmetic V) (s : State V) : List Event → Prop
  | [] => True
  | e :: rest => Careful s e ∧ CarefulRun ops (step ops s e) rest

/- A command of the input threads is on its way: still to be announced, sent, about to be sent, or flagged. -/
def OnItsWay (s : State V) (one two : List (Action V)) : Prop :=
  s.main.inLoop = true → Owes one ∨ Owes two ∨ Delivered s ∨ s.main = .send ∨
    (s.control.seq ≠ 0 ∧ ¬ s.main = .clearSeq)

structure Safe (s : State V) : Prop where
  key : Announced s.key.left
  joy : Announced s.joy.left
  onItsWay : OnItsWay s s.key.left s.joy.left

theorem keyAnnounced (code : KeyCode) : Announced (keyActions ops code) := by
  cases code <;> simp [keyActions, stopRobot, Announced, Action.announces, Owes]

theorem joyAnnounced (j : Joystick V) : Announced (joyActions ops j) := by
  simp [joyActions, Announced, Action.announces, Owes]

theorem Announced.rest {a : Action V} {rest : List (Action V)} (announced : Announced (a :: rest)) : Announced rest := by
  cases a <;> first | exact announced | exact announced.2

theorem owesCons {a : Action V} {rest : List (Action V)} : Owes (a :: rest) ↔ a.announces = true ∨ Owes rest := by
  simp [Owes]

theorem OnItsWay.comm {one two : List (Action V)} (h : OnItsWay s one two) : OnItsWay s two one := by
  intro looping
  rcases h looping with one | two | rest
  · exact Or.inr (Or.inl one)
  · exact Or.inl two
  · exact Or.inr (Or.inr rest)

theorem actMain (s : State V) (a : Action V) : (act s a).main = s.main := by
  cases a <;> simp only [act, sendPacket]
  split <;> rfl

theorem sendPacketDelivers (room : ¬ Full s) : Delivered (sendPacket s) := by
  have sent : sendPacket s = _ := if_neg room
  rw [Delivered, sent]
  exact List.getLast?_concat

/- One action of an input thread. -/
theorem actOnItsWay {a : Action V} {rest others : List (Action V)} (before : OnItsWay s (a :: rest) others)
    (announced : Announced (a :: rest)) (careful : CarefulAction s others (a :: rest)) :
    OnItsWay (act s a) rest others := by
  intro looping
  rw [actMain] at looping ⊢
  cases a with
  | translationalVelocity f => exact Or.inl (announced.1 rfl)
  | rotationalVelocity f => exact Or.inl (announced.1 rfl)
  | seq n =>
    by_cases zero : n = 0
    · exact Or.inl (announced.1 (by simp [Action.announces, zero]))
    · by_cases window : s.main = .clearSeq
      · rcases careful zero window with delivered | more | other
        · exact Or.inr (Or.inr (Or.inl delivered))
        · exact Or.inl more
        · exact Or.inr (Or.inl other)
      · exact Or.inr (Or.inr (Or.inr (Or.inr ⟨zero, window⟩)))
  | sendPacket =>
    by_cases full : Full s
    · by_cases lost : s.main = .clearSeq ∨ (s.globalSeq + 1 = 0 ∧ s.main ≠ .send)
      · rcases careful full lost with delivered | more | other
        · exact Or.inr (Or.inr (Or.inl (by rw [act, sendPacketFull full]; exact delivered)))
        · exact Or.inl more
        · exact Or.inr (Or.inl other)
      · have flag : (act s .sendPacket).control.seq = s.globalSeq + 1 := by rw [act, sendPacketFull full]
        by_cases sending : s.main = .send
        · exact Or.inr (Or.inr (Or.inr (Or.inl sending)))
        · refine Or.inr (Or.inr (Or.inr (Or.inr ⟨?_, fun window => lost (Or.inl window)⟩)))
          exact fun zero => lost (Or.inr ⟨flag.symm.trans zero, sending⟩)
    · exact Or.inr (Or.inr (Or.inl (sendPacketDelivers full)))
  | stop =>
    rcases before looping with own | rest
    · exact Or.inl ((owesCons.mp own).resolve_left (by simp [Action.announces]))
    · exact Or.inr rest

theorem sendPacketThreads (s : State V) : (sendPacket s).key = s.key ∧ (sendPacket s).joy = s.joy := by
  unfold sendPacket
  dsimp only
  split <;> exact ⟨rfl, rfl⟩

theorem actThreads (s : State V) (a : Action V) : (act s a).key = s.key ∧ (act s a).joy = s.joy := by
  cases a with
  | sendPacket => exact sendPacketThreads s
  | _ => exact ⟨rfl, rfl⟩

theorem mainStepThreads (ops : Arithmetic V) (s : State V) :
    (mainStep ops s).key = s.key ∧ (mainStep ops s).joy = s.joy := by
  unfold mainStep
  split
  · exact ⟨rfl, rfl⟩
  · exact ⟨rfl, rfl⟩
  · exact sendPacketThreads s
  · exact ⟨rfl, rfl⟩
  · exact ⟨rfl, rfl⟩
  · split <;> exact ⟨rfl, rfl⟩
  · exact ⟨rfl, rfl⟩
  · exact actThreads s _
  · exact ⟨rfl, rfl⟩

/- A step of the main loop other than the send: what is flagged stays flagged or is about to be sent. -/
theorem OnItsWay.advance {one two : List (Action V)} {later : State V} (before : OnItsWay s one two)
    (looping : s.main.inLoop = true) (other : s.main ≠ .send) (same : Delivered s → Delivered later)
    (flag : s.control.seq ≠ 0 → s.main ≠ .clearSeq →
      later.main = .send ∨ (later.control.seq ≠ 0 ∧ later.main ≠ .clearSeq)) : OnItsWay later one two := by
  intro _
  rcases before looping with one | two | delivered | sending | ⟨up, window⟩
  · exact Or.inl one
  · exact Or.inr (Or.inl two)
  · exact Or.inr (Or.inr (Or.inl (same delivered)))
  · exact absurd sending other
  · exact Or.inr (Or.inr (Or.inr (flag up window)))

theorem OnItsWay.outside {one two : List (Action V)} (left : s.main.inLoop = false) : OnItsWay s one two :=
  fun looping => absurd (left.symm.trans looping) (by decide)

/- The main loop tests the flag, sends, clears the flag and synchronises. -/
theorem mainStepOnItsWay {one two : List (Action V)} (before : OnItsWay s one two)
    (careful : s.main = .send → Full s → Delivered s ∨ Owes one ∨ Owes two) : OnItsWay (mainStep ops s) one two := by
  cases main : s.main with
  | loopTest =>
    simp only [mainStep, main]
    refine before.advance (by rw [main]; rfl) (by simp [main]) id fun up _ => Or.inr ⟨up, ?_⟩
    dsimp only
    split <;> simp
  | testSeq =>
    simp only [mainStep, main]
    exact before.advance (by rw [main]; rfl) (by simp [main]) id fun up _ => Or.inl (if_pos up)
  | send =>
    simp only [mainStep, main]
    intro _
    by_cases full : Full s
    · rw [sendPacketFull full]
      rcases careful main full with delivered | one | two
      · exact Or.inr (Or.inr (Or.inl delivered))
      · exact Or.inl one
      · exact Or.inr (Or.inl two)
    · exact Or.inr (Or.inr (Or.inl (sendPacketDelivers full)))
  | clearSeq =>
    simp only [mainStep, main]
    exact before.advance (by rw [main]; rfl) (by simp [main]) id fun _ window => absurd main window
  | sync =>
    simp only [mainStep, main]
    exact before.advance (by rw [main]; rfl) (by simp [main]) id fun up _ => Or.inr ⟨up, by simp⟩
  | join =>
    refine .outside ?_
    simp only [mainStep, main]
    split
    · rfl
    · rw [main]
      rfl
  | stopping left =>
    refine .outside ?_
    cases left <;> simp only [mainStep, main] <;> rfl
  | finished =>
    refine .outside ?_
    simp only [mainStep, main]
    rfl

theorem mainStepSafe (safe : Safe s) (careful : Careful s .main) : Safe (mainStep ops s) := by
  obtain ⟨key, joy⟩ := mainStepThreads ops s
  exact ⟨by rw [key]; exact safe.key, by rw [joy]; exact safe.joy, by
    rw [key, joy]
    exact mainStepOnItsWay safe.onItsWay careful⟩

/- Between events an input thread changes nothing but where it stands. -/
theorem OnItsWay.idle {one two new : List (Action V)} {later : State V} (before : OnItsWay s one two) (none : ¬ Owes one)
    (main : later.main = s.main) (control : later.control = s.control) (enqueued : later.enqueued = s.enqueued) :
    OnItsWay later new two := by
  intro looping
  rw [main] at looping
  have same : Delivered later ↔ Delivered s := by rw [Delivered, Delivered, enqueued, control]
  rw [same, main, control]
  exact Or.inr ((before looping).resolve_left none)

theorem owesNothing : ¬ Owes ([] : List (Action V)) := by simp [Owes]

theorem keyStepSafe (code : Option KeyCode) (safe : Safe s) (careful : Careful s (.key code)) : Safe (keyStep ops code s) := by
  obtain ⟨announced, joy, onItsWay⟩ := safe
  unfold Careful at careful
  cases key : s.key with
  | opening =>
    rw [key] at onItsWay
    simp only [keyStep, key]
    exact ⟨trivial, joy, onItsWay.idle owesNothing rfl rfl rfl⟩
  | testMode =>
    rw [key] at onItsWay
    simp only [keyStep, key]
    refine ⟨?_, joy, onItsWay.idle owesNothing rfl rfl rfl⟩
    dsimp only
    split <;> trivial
  | waiting =>
    rw [key] at onItsWay
    simp only [keyStep, key]
    cases code with
    | none => exact ⟨announced, joy, onItsWay.idle owesNothing rfl rfl rfl⟩
    | some code => exact ⟨keyAnnounced code, joy, onItsWay.idle owesNothing rfl rfl rfl⟩
  | handling left =>
    rw [key] at announced onItsWay careful
    cases left with
    | nil =>
      simp only [keyStep, key]
      exact ⟨trivial, joy, onItsWay.idle owesNothing rfl rfl rfl⟩
    | cons a rest =>
      simp only [keyStep, key]
      refine ⟨announced.rest, ?_, ?_⟩
      · have same : (act s a).joy.left = s.joy.left := by rw [(actThreads s a).2]
        exact same ▸ joy
      · have same : (act s a).joy.left = s.joy.left := by rw [(actThreads s a).2]
        have after : OnItsWay (act s a) rest (act s a).joy.left := same ▸ actOnItsWay onItsWay announced careful
        exact after
  | finished =>
    simp only [keyStep, key]
    exact ⟨announced, joy, onItsWay⟩

theorem joyStepSafe (opened : Bool) (e : Option JsEvent) (safe : Safe s) (careful : Careful s (.joy opened e)) :
    Safe (joyStep ops opened e s) := by
  obtain ⟨key, announced, onItsWay⟩ := safe
  replace onItsWay := onItsWay.comm
  unfold Careful at careful
  cases joy : s.joy with
  | opening =>
    rw [joy] at onItsWay
    simp only [joyStep, joy]
    refine ⟨key, ?_, (onItsWay.idle owesNothing rfl rfl rfl).comm⟩
    dsimp only
    split <;> trivial
  | testMode =>
    rw [joy] at onItsWay
    simp only [joyStep, joy]
    refine ⟨key, ?_, (onItsWay.idle owesNothing rfl rfl rfl).comm⟩
    dsimp only
    split <;> trivial
  | waiting =>
    rw [joy] at onItsWay
    simp only [joyStep, joy]
    cases e with
    | none => exact ⟨key, trivial, (onItsWay.idle owesNothing rfl rfl rfl).comm⟩
    | some e => exact ⟨key, joyAnnounced _, (onItsWay.idle owesNothing rfl rfl rfl).comm⟩
  | handling left =>
    rw [joy] at announced onItsWay careful
    cases left with
    | nil =>
      simp only [joyStep, joy]
      exact ⟨key, trivial, (onItsWay.idle owesNothing rfl rfl rfl).comm⟩
    | cons a rest =>
      have same : (act s a).key.left = s.key.left := by rw [(actThreads s a).1]
      have after : OnItsWay (act s a) rest (act s a).key.left := same ▸ actOnItsWay onItsWay announced careful
      simp only [joyStep, joy]
      exact ⟨same ▸ key, announced.rest, after.comm⟩
  | finished =>
    simp only [joyStep, joy]
    exact ⟨key, announced, onItsWay.comm⟩

theorem runSafe (events : List Event) (safe : Safe s) (careful : CarefulRun ops s events) : Safe (run ops s events) := by
  induction events generalizing s with
  | nil => exact safe
  | cons e rest ih =>
    refine ih ?_ careful.2
    cases e with
    | main => exact mainStepSafe safe careful.1
    | key code => exact keyStepSafe code safe careful.1
    | joy opened e => exact joyStepSafe opened e safe careful.1

theorem initialSafe (ops : Arithmetic V) (globalSeq : PacketSeq) (txSize : Nat) : Safe (initial ops globalSeq txSize) :=
  ⟨trivial, trivial, fun _ => Or.inr (Or.inr (Or.inr (Or.inr ⟨by simp [initial], by simp [initial]⟩)))⟩

/-! One more iteration, with the input threads at rest. -/

def Quiet : Event → Prop
  | .main => True
  | .key code => code = none
  | .joy _ e => e = none

/- Where an iteration with room in the buffer has got to. -/
structure Iterating (s : State V) : Prop where
  settled : Settled s
  place : match s.main with
    | .loopTest => Delivered s ∧ ¬ Full s
    | .testSeq => (Delivered s ∨ s.control.seq ≠ 0) ∧ ¬ Full s
    | .send => ¬ Full s
    | .clearSeq | .sync => Delivered s
    | .join | .stopping _ | .finished => True

/- An input thread without an event leaves everything to the main loop. -/
structure Rests (s later : State V) : Prop where
  control : later.control = s.control
  enqueued : later.enqueued = s.enqueued
  txSize : later.txSize = s.txSize
  main : later.main = s.main
  settled : Settled later

theorem Rests.delivered {later : State V} (rests : Rests s later) : Delivered later ↔ Delivered s := by
  rw [Delivered, Delivered, rests.control, rests.enqueued]

theorem Rests.full {later : State V} (rests : Rests s later) : Full later ↔ Full s := by
  rw [Full, Full, rests.txSize]

theorem keyRests (ops : Arithmetic V) (settled : Settled s) : Rests s (keyStep ops none s) := by
  cases key : s.key with
  | opening =>
    simp only [keyStep, key]
    exact ⟨rfl, rfl, rfl, rfl, rfl, settled.joy⟩
  | testMode =>
    simp only [keyStep, key]
    refine ⟨rfl, rfl, rfl, rfl, ?_, settled.joy⟩
    dsimp only
    split <;> rfl
  | waiting =>
    simp only [keyStep, key]
    exact ⟨rfl, rfl, rfl, rfl, settled⟩
  | handling left =>
    have none := settled.key
    rw [key] at none
    obtain rfl : left = [] := none
    simp only [keyStep, key]
    exact ⟨rfl, rfl, rfl, rfl, rfl, settled.joy⟩
  | finished =>
    simp only [keyStep, key]
    exact ⟨rfl, rfl, rfl, rfl, settled⟩

theorem joyRests (ops : Arithmetic V) (opened : Bool) (settled : Settled s) : Rests s (joyStep ops opened none s) := by
  cases joy : s.joy with
  | opening =>
    simp only [joyStep, joy]
    refine ⟨rfl, rfl, rfl, rfl, settled.key, ?_⟩
    dsimp only
    split <;> rfl
  | testMode =>
    simp only [joyStep, joy]
    refine ⟨rfl, rfl, rfl, rfl, settled.key, ?_⟩
    dsimp only
    split <;> rfl
  | waiting =>
    simp only [joyStep, joy]
    exact ⟨rfl, rfl, rfl, rfl, settled.key, rfl⟩
  | handling left =>
    have none := settled.joy
    rw [joy] at none
    obtain rfl : left = [] := none
    simp only [joyStep, joy]
    exact ⟨rfl, rfl, rfl, rfl, settled.key, rfl⟩
  | finished =>
    simp only [joyStep, joy]
    exact ⟨rfl, rfl, rfl, rfl, settled⟩

theorem inputRests (ops : Arithmetic V) {e : Event} (quiet : Quiet e) (input : e ≠ .main) (settled : Settled s) : Rests s (step ops s e) := by
  cases e with
  | main => contradiction
  | key code =>
    obtain rfl : code = none := quiet
    exact keyRests ops settled
  | joy opened e =>
    obtain rfl : e = none := quiet
    exact joyRests ops opened settled

theorem mainIterating (iterating : Iterating s) : Iterating (mainStep ops s) := by
  obtain ⟨key, joy⟩ := mainStepThreads ops s
  refine ⟨⟨by rw [key]; exact iterating.settled.key, by rw [joy]; exact iterating.settled.joy⟩, ?_⟩
  have place := iterating.place
  cases main : s.main with
  | loopTest =>
    rw [main] at place
    simp only [mainStep, main]
    by_cases stopped : s.mode = .stop
    · simp only [if_pos stopped]
    · simp only [if_neg stopped]
      exact ⟨Or.inl place.1, place.2⟩
  | testSeq =>
    rw [main] at place
    simp only [mainStep, main]
    by_cases flag : s.control.seq ≠ 0
    · simp only [if_pos flag]
      exact place.2
    · simp only [if_neg flag]
      exact place.1.resolve_right flag
  | send =>
    rw [main] at place
    simp only [mainStep, main]
    exact sendPacketDelivers place
  | clearSeq =>
    rw [main] at place
    simp only [mainStep, main]
    exact place
  | sync =>
    rw [main] at place
    simp only [mainStep, main]
    exact ⟨place, by simp only [Full]; decide⟩
  | join =>
    by_cases joined : (s.key.isFinished && s.joy.isFinished) = true
    · simp only [mainStep, main, if_pos joined]
    · simp only [mainStep, main, if_neg joined]
  | stopping left => cases left <;> simp only [mainStep, main]
  | finished => simp only [mainStep, main]

theorem quietIterating (ops : Arithmetic V) {e : Event} (quiet : Quiet e) (iterating : Iterating s) : Iterating (step ops s e) := by
  by_cases input : e ≠ .main
  · have rests := inputRests ops quiet input iterating.settled
    refine ⟨rests.settled, ?_⟩
    rw [rests.main, rests.delivered, rests.full, rests.control]
    exact iterating.place
  · obtain rfl := not_not.mp input
    exact mainIterating iterating

theorem quietRunIterating (ops : Arithmetic V) {rest : List Event} (quiet : ∀ e ∈ rest, Quiet e) (iterating : Iterating s) :
    Iterating (run ops s rest) := by
  induction rest generalizing s with
  | nil => exact iterating
  | cons e rest ih =>
    exact ih (fun other member => quiet other (List.mem_cons_of_mem e member))
      (quietIterating ops (quiet e List.mem_cons_self) iterating)

/- From the top of the loop on, with a command on its way. -/
theorem iterationDelivers {rest : List Event} (quiet : ∀ e ∈ rest, Quiet e) (ran : .main ∈ rest) (settled : Settled s)
    (top : s.main = .loopTest) (room : ¬ Full s) (flagged : Delivered s ∨ s.control.seq ≠ 0)
    (back : (run ops s rest).main = .loopTest) : Delivered (run ops s rest) := by
  induction rest generalizing s with
  | nil => contradiction
  | cons e rest ih =>
    have others : ∀ other ∈ rest, Quiet other := fun other member => quiet other (List.mem_cons_of_mem e member)
    by_cases input : e ≠ .main
    · have rests := inputRests ops (quiet e List.mem_cons_self) input settled
      refine ih others ((List.mem_cons.mp ran).resolve_left input.symm) rests.settled (rests.main.trans top) ?_ ?_ back
      · rw [rests.full]
        exact room
      · rw [rests.delivered, rests.control]
        exact flagged
    · obtain rfl := not_not.mp input
      have testing : Iterating (mainStep ops s) := by
        obtain ⟨key, joy⟩ := mainStepThreads ops s
        refine ⟨⟨by rw [key]; exact settled.key, by rw [joy]; exact settled.joy⟩, ?_⟩
        simp only [mainStep, top]
        by_cases stopped : s.mode = .stop
        · simp only [if_pos stopped]
        · simp only [if_neg stopped]
          exact ⟨flagged, room⟩
      have after := (quietRunIterating ops others testing).place
      have last : (run ops (mainStep ops s) rest).main = .loopTest := back
      rw [last] at after
      exact after.1

/- Once the input threads are at rest at the top of the loop, an iteration with room delivers their command. -/
def Delivers (ops : Arithmetic V) (s : State V) : Prop :=
  Settled s → s.main = .loopTest → ¬ Full s →
    ∀ rest, (∀ e ∈ rest, Quiet e) → .main ∈ rest → (run ops s rest).main = .loopTest → Delivered (run ops s rest)

theorem commandsDelivered (ops : Arithmetic V) (globalSeq : PacketSeq) (txSize : Nat) (events : List Event)
    (careful : CarefulRun ops (initial ops globalSeq txSize) events) :
    Delivers ops (run ops (initial ops globalSeq txSize) events) := by
  intro settled top room rest quiet ran back
  have safe := runSafe events (initialSafe ops globalSeq txSize) careful
  refine iterationDelivers quiet ran settled top room ?_ back
  have onItsWay := safe.onItsWay
  rw [settled.key, settled.joy] at onItsWay
  rcases onItsWay (by rw [top]; rfl) with one | two | delivered | sending | ⟨flag, -⟩
  · exact absurd one owesNothing
  · exact absurd two owesNothing
  · exact Or.inl delivered
  · rw [top] at sending
    contradiction
  · exact Or.inr flag

/-! The condition leaves out nothing but lost commands. -/

/- The flag is down, or about to be cleared, and the last packet has other velocities. -/
structure Forgotten (s : State V) : Prop where
  running : s.mode = .start
  settled : Settled s
  undelivered : ¬ Delivered s
  place : s.main = .clearSeq ∨ (s.control.seq = 0 ∧ s.main.inLoop = true ∧ s.main ≠ .send)

theorem forgottenStep (ops : Arithmetic V) (forgotten : Forgotten s) : Forgotten (mainStep ops s) := by
  obtain ⟨running, settled, undelivered, place⟩ := forgotten
  cases main : s.main with
  | clearSeq =>
    simp only [mainStep, main]
    exact ⟨running, ⟨settled.key, settled.joy⟩, undelivered, Or.inr ⟨rfl, rfl, by simp⟩⟩
  | loopTest =>
    obtain ⟨down, -⟩ := place.resolve_left (by simp [main])
    have stepped : mainStep ops s = { s with main := .testSeq } := by simp [mainStep, main, running]
    rw [stepped]
    exact ⟨running, ⟨settled.key, settled.joy⟩, undelivered, Or.inr ⟨down, rfl, by simp⟩⟩
  | testSeq =>
    obtain ⟨down, -⟩ := place.resolve_left (by simp [main])
    have stepped : mainStep ops s = { s with main := .sync } := by simp [mainStep, main, down]
    rw [stepped]
    exact ⟨running, ⟨settled.key, settled.joy⟩, undelivered, Or.inr ⟨down, rfl, by simp⟩⟩
  | sync =>
    obtain ⟨down, -⟩ := place.resolve_left (by simp [main])
    simp only [mainStep, main]
    exact ⟨running, ⟨settled.key, settled.joy⟩, undelivered, Or.inr ⟨down, rfl, by simp⟩⟩
  | send => exact absurd place (by simp [main])
  | join => exact absurd place (by simp [main, MainPc.inLoop])
  | stopping left => exact absurd place (by simp [main, MainPc.inLoop])
  | finished => exact absurd place (by simp [main, MainPc.inLoop])

/- The main loop alone comes back to its top without sending anything. -/
theorem forgottenLost (ops : Arithmetic V) (forgotten : Forgotten s) : ∃ n, ¬ Delivers ops (run ops s (List.replicate n .main)) := by
  have fromSync {s : State V} (forgotten : Forgotten s) (main : s.main = .sync) : ¬ Delivers ops (mainStep ops s) := by
    intro delivers
    have top : mainStep ops s = { s with txSize := 0, main := .loopTest } := by simp only [mainStep, main]
    obtain ⟨down, -⟩ := forgotten.place.resolve_left (by simp [main])
    have around : run ops (mainStep ops s) [.main, .main, .main] = { s with txSize := 0, main := .loopTest } := by
      simp [run, step, mainStep, main, forgotten.running, down]
    refine forgotten.undelivered ?_
    have last := delivers (by rw [top]; exact ⟨forgotten.settled.key, forgotten.settled.joy⟩) (by rw [top]) (by rw [top]; simp only [Full]; decide)
      [.main, .main, .main] (by simp [Quiet]) List.mem_cons_self (by rw [around])
    rw [around] at last
    exact last
  have next {s : State V} (forgotten : Forgotten s) : Forgotten (mainStep ops s) := forgottenStep ops forgotten
  cases main : s.main with
  | clearSeq =>
    have synced : (mainStep ops s).main = .sync := by simp only [mainStep, main]
    exact ⟨2, fromSync (next forgotten) synced⟩
  | loopTest =>
    obtain ⟨down, -⟩ := forgotten.place.resolve_left (by simp [main])
    have synced : (mainStep ops (mainStep ops s)).main = .sync := by simp [mainStep, main, forgotten.running, down]
    exact ⟨3, fromSync (next (next forgotten)) synced⟩
  | testSeq =>
    obtain ⟨down, -⟩ := forgotten.place.resolve_left (by simp [main])
    have synced : (mainStep ops s).main = .sync := by simp [mainStep, main, down]
    exact ⟨2, fromSync (next forgotten) synced⟩
  | sync => exact ⟨1, fromSync forgotten main⟩
  | send => exact absurd forgotten.place (by simp [main])
  | join => exact absurd forgotten.place (by simp [main, MainPc.inLoop])
  | stopping left => exact absurd forgotten.place (by simp [main, MainPc.inLoop])
  | finished => exact absurd forgotten.place (by simp [main, MainPc.inLoop])

/- A step that is not careful forgets a command, when it is the last the input threads have to do. -/
theorem carelessLoses (ops : Arithmetic V) {e : Event} (careless : ¬ Careful s e) (running : s.mode = .start)
    (looping : s.main.inLoop = true) (settled : Settled (step ops s e)) :
    ∃ n, ¬ Delivers ops (run ops (step ops s e) (List.replicate n .main)) := by
  refine forgottenLost ops ?_
  have input {a : Action V} {rest others : List (Action V)} (careless : ¬ CarefulAction s others (a :: rest)) :
      (act s a).mode = .start ∧ ¬ Delivered (act s a) ∧ ((act s a).main = .clearSeq ∨
        ((act s a).control.seq = 0 ∧ (act s a).main.inLoop = true ∧ (act s a).main ≠ .send)) := by
    cases a with
    | seq n =>
      simp only [CarefulAction, Classical.not_imp, not_or] at careless
      exact ⟨running, careless.2.2.1, Or.inl careless.2.1⟩
    | sendPacket =>
      simp only [CarefulAction, Classical.not_imp, not_or] at careless
      obtain ⟨full, lost, undelivered, -⟩ := careless
      rw [act, sendPacketFull full]
      exact ⟨running, undelivered, lost.imp id fun wrapped => ⟨wrapped.1, looping, wrapped.2⟩⟩
    | translationalVelocity f => exact absurd trivial careless
    | rotationalVelocity f => exact absurd trivial careless
    | stop => exact absurd trivial careless
  cases e with
  | main =>
    simp only [Careful, Classical.not_imp, not_or] at careless
    obtain ⟨main, full, undelivered, -⟩ := careless
    have stepped : step ops s .main = { sendPacket s with main := .clearSeq } := by simp only [step, mainStep, main]
    rw [stepped, sendPacketFull full] at settled ⊢
    exact ⟨running, settled, undelivered, Or.inl rfl⟩
  | key code =>
    rw [Careful] at careless
    cases key : s.key with
    | handling left =>
      rw [key] at careless
      cases left with
      | nil => exact absurd trivial careless
      | cons a rest =>
        have stepped : step ops s (.key code) = { act s a with key := .handling rest } := by simp only [step, keyStep, key]
        obtain ⟨mode, undelivered, place⟩ := input careless
        rw [stepped] at settled ⊢
        exact ⟨mode, settled, undelivered, place⟩
    | _ =>
      rw [key] at careless
      exact absurd trivial careless
  | joy opened e =>
    rw [Careful] at careless
    cases joy : s.joy with
    | handling left =>
      rw [joy] at careless
      cases left with
      | nil => exact absurd trivial careless
      | cons a rest =>
        have stepped : step ops s (.joy opened e) = { act s a with joy := .handling rest } := by
          simp only [step, joyStep, joy]
        obtain ⟨mode, undelivered, place⟩ := input careless
        rw [stepped] at settled ⊢
        exact ⟨mode, settled, undelivered, place⟩
    | _ =>
      rw [joy] at careless
      exact absurd trivial careless

end Delivery

def whole : Arithmetic Int := ⟨0, 1, 2, (· + 1), (· - 1), (· * ·), (- ·), (- ·)⟩

/- The arrow key comes and goes before the main loop looks at the flag. -/
def earlyKey : List Event := [.key none, .key none, .key (some .arrowUp), .key none, .key none, .key none]

theorem earlyKeyDelivered :
    Delivered (run whole (run whole (initial whole 0 0) earlyKey) (List.replicate 5 .main)) := by
  have careful : CarefulRun whole (initial whole 0 0) earlyKey :=
    ⟨trivial, trivial, trivial, trivial, fun _ window => absurd (show MainPc.loopTest = MainPc.clearSeq from window)
      (by simp), trivial, trivial⟩
  have room : ¬ Full (run whole (initial whole 0 0) earlyKey) := by decide
  exact commandsDelivered whole 0 0 earlyKey careful ⟨rfl, rfl⟩ rfl room _
    (fun e member => by rw [List.eq_of_mem_replicate member]; trivial) (List.mem_replicate.mpr ⟨by decide, rfl⟩) rfl

/- The arrow key comes after the packet is sent, and raises the flag before the main loop clears it. -/
def lateKey : List Event := List.replicate 3 .main ++ earlyKey ++ List.replicate 2 .main

theorem lateKeyLost : ¬ Delivers whole (run whole (initial whole 0 0) lateKey) := by
  intro delivers
  have room : ¬ Full (run whole (initial whole 0 0) lateKey) := by decide
  have last := delivers ⟨rfl, rfl⟩ rfl room (List.replicate 3 .main)
    (fun e member => by rw [List.eq_of_mem_replicate member]; trivial) (List.mem_replicate.mpr ⟨by decide, rfl⟩) rfl
  unfold Delivered at last
  exact absurd last (by decide)

end OrazioLogger.DriveCommand
