import OrazioLogger.Support.SemaphoreQueue

/-! orazio_logger.c: the five threads of the logger, each with its program
counter, over the mode flag, the timestamp, the text buffers and the queue.
A statement that touches shared data is one step. The timestamp and the semaphores
count without bound. What the threads do to the robot does not show here. -/
namespace OrazioLogger.Logger

abbrev Text := List Char

inductive Mode where
  | start | stop
  deriving DecidableEq, Repr

inductive GenDataType where
  | image | systemPacket | sonarPacket | drivePacket | jointPacket
  deriving DecidableEq, Repr

/- The block-scope arrays: one storage cell each, reused by every iteration. -/
inductive Cell where
  | systemBuffer | jointBuffer | sonarBuffer | driveBuffer | nomefile
  deriving DecidableEq, Repr

structure GenData where
  type : GenDataType
  ts : Nat
  data : Cell
  deriving DecidableEq, Repr

structure Line where
  type : GenDataType
  ts : Nat
  text : Text
  deriving DecidableEq, Repr

/- The packets the main loop logs, in its order. -/
inductive Packet where
  | system | joint | sonar | drive
  deriving DecidableEq, Repr

def Packet.type : Packet → GenDataType
  | .system => .systemPacket
  | .joint => .jointPacket
  | .sonar => .sonarPacket
  | .drive => .drivePacket

def Packet.cell : Packet → Cell
  | .system => .systemBuffer
  | .joint => .jointBuffer
  | .sonar => .sonarBuffer
  | .drive => .driveBuffer

/- The queue with its two semaphores. `entered` is history: the records in the
order their producers got `critical`. -/
structure Shared where
  queue : List GenData
  empty : Nat
  critical : Nat
  entered : List GenData

/- `addPacket` once its record is filled in, and the same lines of `getpictureThread`. -/
inductive AddPacket where
  | waitCritical (new : GenData) | enqueue (new : GenData) | postEmpty | postCritical | returned
  deriving DecidableEq, Repr

def addPacketStep (sh : Shared) : AddPacket → Shared × AddPacket
  | .waitCritical new =>
    if 0 < sh.critical then
      ({ sh with critical := sh.critical - 1, entered := sh.entered ++ [new] }, .enqueue new)
    else (sh, .waitCritical new)
  | .enqueue new => ({ sh with queue := sh.queue ++ [new] }, .postEmpty)
  | .postEmpty => ({ sh with empty := sh.empty + 1 }, .postCritical)
  | .postCritical => ({ sh with critical := sh.critical + 1 }, .returned)
  | .returned => (sh, .returned)

/- `print .joint i pos` is the i-th turn of the loop over the joints. -/
inductive MainPc where
  | loopTest | send | sync
  | print (p : Packet) (i pos : Nat)
  | call (p : Packet)
  | add (p : Packet) (pc : AddPacket)
  | increment
  | joinKey | joinJoy | joinWriter | joinCamera | finished
  deriving DecidableEq, Repr

inductive CameraPc where
  | starting | loopTest | frame | readTimestamp
  | name (ts : Nat)
  | save (ts : Nat)
  | add (pc : AddPacket)
  | sleep | finished
  deriving DecidableEq, Repr

/- `crashed` is where `d->type` goes when `d` is null. -/
inductive WriterPc where
  | testMode | testEmpty | waitEmpty | waitCritical | dequeue
  | postCritical (d : Option GenData)
  | print (d : Option GenData)
  | crashed | finished
  deriving DecidableEq, Repr

inductive KeyPc where
  | testMode | getKey | finished
  deriving DecidableEq, Repr

inductive JoyPc where
  | opening | testMode | read | finished
  deriving DecidableEq, Repr

/- Every key but Escape only changes `drive_control`. -/
inductive KeyCode where
  | esc | other
  deriving DecidableEq, Repr

/- `formatted` is history: what the buffer held when `addPacket` was called for
a packet type and a timestamp. -/
structure State where
  mode : Mode
  timestamp : Nat
  cells : Cell → Text
  shared : Shared
  main : MainPc
  camera : CameraPc
  writer : WriterPc
  key : KeyPc
  joy : JoyPc
  output : List Line
  formatted : GenDataType × Nat → Option Text

/- A turn of one thread, with what it gets from outside. A thread that is blocked
or has ended lets its turn pass. -/
inductive Event where
  | main (text : Text) | camera | writer | key (code : KeyCode) | joy (opened : Bool)
  deriving DecidableEq, Repr

/- Where the main loop goes after logging a packet. -/
def Packet.next : Packet → MainPc
  | .system => .print .joint 0 0
  | .joint => .print .sonar 0 0
  | .sonar => .print .drive 0 0
  | .drive => .increment

def setCell (s : State) (c : Cell) (text : Text) : State :=
  { s with cells := Function.update s.cells c text }

/- `Orazio_printPacket(joint_buffer+pos, ..)` ends the string behind its own text. -/
def printStep (numJoints : Nat) (text : Text) (s : State) (p : Packet) (i pos : Nat) : State :=
  match p with
  | .joint =>
    if i < numJoints then
      { setCell s .jointBuffer ((s.cells .jointBuffer).take pos ++ text) with
        main := .print .joint (i + 1) (pos + text.length) }
    else { s with main := .call .joint }
  | p => { setCell s p.cell text with main := .call p }

def mainStep (numJoints : Nat) (text : Text) (s : State) : State :=
  match s.main with
  | .loopTest => { s with main := if s.mode = .stop then .joinKey else .send }
  | .send => { s with main := .sync }
  | .sync => { s with main := .print .system 0 0 }
  | .print p i pos => printStep numJoints text s p i pos
  | .call p => { s with
      main := .add p (.waitCritical ⟨p.type, s.timestamp, p.cell⟩)
      formatted := Function.update s.formatted (p.type, s.timestamp) (some (s.cells p.cell)) }
  | .add p .returned => { s with main := p.next }
  | .add p pc =>
    let (shared, pc) := addPacketStep s.shared pc
    { s with shared := shared, main := .add p pc }
  | .increment => { s with timestamp := s.timestamp + 1, main := .loopTest }
  | .joinKey => if s.key = .finished then { s with main := .joinJoy } else s
  | .joinJoy => if s.joy = .finished then { s with main := .joinWriter } else s
  | .joinWriter => if s.writer = .finished then { s with main := .joinCamera } else s
  | .joinCamera => if s.camera = .finished then { s with main := .finished } else s
  | .finished => s

def imageName (timestamp : Nat) : Text := ("output_frames/" ++ toString timestamp ++ ".jpg").toList

def cameraStep (s : State) : State :=
  match s.camera with
  | .starting => { s with camera := .loopTest }
  | .loopTest => { s with camera := if s.mode = .stop then .finished else .frame }
  | .frame => { s with camera := .readTimestamp }
  | .readTimestamp => { s with camera := .name s.timestamp }
  | .name ts => { setCell s .nomefile (imageName s.timestamp) with camera := .save ts }
  | .save ts => { s with camera := .add (.waitCritical ⟨.image, ts, .nomefile⟩) }
  | .add .returned => { s with camera := .sleep }
  | .add pc =>
    let (shared, pc) := addPacketStep s.shared pc
    { s with shared := shared, camera := .add pc }
  | .sleep => { s with camera := .loopTest }
  | .finished => s

def writerStep (s : State) : State :=
  match s.writer with
  | .testMode => { s with writer := if s.mode = .stop then .testEmpty else .waitEmpty }
  | .testEmpty => { s with writer := if s.shared.queue = [] then .finished else .waitEmpty }
  | .waitEmpty =>
    if 0 < s.shared.empty then
      { s with shared := { s.shared with empty := s.shared.empty - 1 }, writer := .waitCritical }
    else s
  | .waitCritical =>
    if 0 < s.shared.critical then
      { s with shared := { s.shared with critical := s.shared.critical - 1 }, writer := .dequeue }
    else s
  | .dequeue => { s with
      shared := { s.shared with queue := s.shared.queue.tail }
      writer := .postCritical s.shared.queue.head? }
  | .postCritical d => { s with
      shared := { s.shared with critical := s.shared.critical + 1 }
      writer := .print d }
  | .print none => { s with writer := .crashed }
  | .print (some d) => { s with output := s.output ++ [⟨d.type, d.ts, s.cells d.data⟩], writer := .testMode }
  | .crashed => s
  | .finished => s

def keyStep (code : KeyCode) (s : State) : State :=
  match s.key with
  | .testMode => { s with key := if s.mode = .stop then .finished else .getKey }
  | .getKey => { s with mode := if code = .esc then .stop else s.mode, key := .testMode }
  | .finished => s

def joyStep (opened : Bool) (s : State) : State :=
  match s.joy with
  | .opening => { s with joy := if opened then .testMode else .finished }
  | .testMode => { s with joy := if s.mode = .stop then .finished else .read }
  | .read => { s with joy := .testMode }
  | .finished => s

def step (numJoints : Nat) (s : State) : Event → State
  | .main text => mainStep numJoints text s
  | .camera => cameraStep s
  | .writer => writerStep s
  | .key code => keyStep code s
  | .joy opened => joyStep opened s

def run (numJoints : Nat) (s : State) : List Event → State
  | [] => s
  | e :: rest => run numJoints (step numJoints s e) rest

/- All threads created, the main loop about to begin; the buffers hold anything. -/
def initial (cells : Cell → Text) : State :=
  { mode := .start
    timestamp := 0
    cells := cells
    shared := ⟨[], 0, 1, []⟩
    main := .loopTest
    camera := .starting
    writer := .testMode
    key := .testMode
    joy := .opening
    output := []
    formatted := fun _ => none }

end OrazioLogger.Logger
