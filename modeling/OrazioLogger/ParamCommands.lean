import OrazioLogger.Logger
import OrazioLogger.OrazioPackets
import Mathlib.Logic.Function.Basic

/-! The parameter commands of orazio_shell_commands.c, given by the shell and by the websocket thread, and the host's
_runnerFn that sends them, in turns of one access each to what they share. -/
namespace OrazioLogger.ParamCommands
open Logger (Text)
open OrazioPackets

inductive ParamAction where
  | request | load | save
  deriving DecidableEq, Repr

/- The header is the same in every query. -/
structure ParamControlPacket where
  action : ParamAction
  paramType : UInt8
  index : UInt8
  deriving DecidableEq, Repr

inductive Command where
  | fetch | store | request
  deriving DecidableEq, Repr

def Command.name : Command → Text
  | .fetch => "fetch".toList
  | .store => "store".toList
  | .request => "request".toList

def Command.action : Command → ParamAction
  | .fetch => .load
  | .store => .save
  | .request => .request

def isParamPacket (name : Text) : Bool :=
  ["system_params", "joint_params", "joint_params[0]", "joint_params[1]", "drive_params", "sonar_params"].any
    fun set => set.toList = name

/- The query paramFn makes, or its answer to a name it does not take. -/
def paramQuery (cmd : Command) (varName : Text) : Except Text ParamControlPacket :=
  if ¬ isParamPacket varName then .error (cmd.name ++ ": only parameters can be loaded\n".toList)
  else if varName = "system_params".toList then .ok ⟨cmd.action, paramSystem, 0⟩
  else if varName = "joint_params[0]".toList then .ok ⟨cmd.action, paramJointsSingle, 0⟩
  else if varName = "joint_params[1]".toList then .ok ⟨cmd.action, paramJointsSingle, 1⟩
  else if varName = "drive_params".toList then .ok ⟨cmd.action, paramDrive, 0⟩
  else if varName = "sonar_params".toList then .ok ⟨cmd.action, paramSonar, 0⟩
  else .error (cmd.name ++ ": cannot handle params of type [".toList ++ varName ++ "]\n".toList)

inductive Caller where
  | shell | websocket
  deriving DecidableEq, Repr

/- The next access of a call of paramFn. -/
inductive Stage where
  | setQuery | initSem | setFlag | waitSem | clearFlag | destroySem | result
  deriving DecidableEq, Repr

/- Calls are numbered, from one on. -/
structure Pending where
  id : Nat
  query : ParamControlPacket
  stage : Stage
  deriving DecidableEq, Repr

/- The next access of _runnerFn. In refreshState and refreshParams a packet is fetched and its status stored in one
turn. -/
inductive Runner where
  | sync | refreshMessage
  | clearState | getState (i : Nat) | testState (i : Nat) | getResponse | returnState
  | testStateSem | testParamSem
  | send | storeSent (sent : PacketStatus) | testSent | readType
  | clearParams (type : UInt8) | getJoint (i : Nat) | testJoint (i : Nat) | getParams | returnParams
  | post
  deriving DecidableEq, Repr

/- A query that was sent, with the status of OrazioClient_sendPacket; or a call that returned, with what it returned. -/
structure Send where
  id : Nat
  query : ParamControlPacket
  status : PacketStatus
  deriving DecidableEq, Repr

/- `owner` is the call that wrote `paramControl` last. -/
structure State where
  paramControl : ParamControlPacket
  owner : Nat
  paramSem : Nat
  paramSemInit : Bool
  opResult : PacketStatus
  runner : Runner
  threads : Caller → Option Pending
  started : Nat
  sends : List Send
  returned : List Send

def numJoints : Nat := 2

/- The packets whose status refreshState stores: two, the joints' and two more. -/
def stateGets : Nat := 4 + numJoints

/- What a turn of the runner stores in `op_result`; `status` is what the client returns in that turn. -/
def Runner.stores (status : PacketStatus) : Runner → Option PacketStatus
  | .clearState | .clearParams _ => some .success
  | .getState _ | .getJoint _ => some status
  | .storeSent sent => some sent
  | _ => none

/- OrazioClient_sendPacket reads the query once more, for the number it awaits: that decides the status only. -/
def runnerStep (s : State) (status : PacketStatus) : State :=
  match s.runner with
  | .sync => { s with runner := .refreshMessage }
  | .refreshMessage => { s with runner := .clearState }
  | .clearState => { s with opResult := .success, runner := .getState 0 }
  | .getState i => { s with opResult := status, runner := if i + 1 < stateGets then .testState i else .getResponse }
  | .testState i => { s with runner := if s.opResult = .success then .getState (i + 1) else .returnState }
  | .getResponse => { s with runner := .returnState }
  | .returnState => { s with runner := .testStateSem }
  | .testStateSem => { s with runner := .testParamSem }
  | .testParamSem => { s with runner := if s.paramSemInit = true then .send else .sync }
  | .send => { s with runner := .storeSent status, sends := s.sends ++ [⟨s.owner, s.paramControl, status⟩] }
  | .storeSent sent => { s with opResult := sent, runner := .testSent }
  | .testSent => { s with runner := if s.opResult = .success then .readType else .post }
  | .readType => { s with runner := .clearParams s.paramControl.paramType }
  | .clearParams type =>
    { s with opResult := .success, runner := if type = paramJointsSingle then .getJoint 0 else .getParams }
  | .getJoint i => { s with opResult := status, runner := .testJoint i }
  | .testJoint i =>
    { s with runner := if s.opResult = .success ∧ i + 1 < numJoints then .getJoint (i + 1) else .returnParams }
  | .getParams => { s with runner := .post }
  | .returnParams => { s with runner := .post }
  | .post => { s with paramSem := s.paramSem + 1, runner := .sync }

def State.moved (s : State) (c : Caller) (p : Option Pending) : State := { s with threads := Function.update s.threads c p }

@[simp] theorem movedSelf (s : State) (c : Caller) (p : Option Pending) : (s.moved c p).threads c = p := Function.update_self ..

@[simp] theorem movedOther (s : State) {c d : Caller} (other : d ≠ c) (p : Option Pending) :
    (s.moved c p).threads d = s.threads d := Function.update_of_ne other ..

def callStep (s : State) (c : Caller) (cmd : Command) (varName : Text) : State :=
  match s.threads c, paramQuery cmd varName with
  | none, .ok query => { s.moved c (some ⟨s.started + 1, query, .setQuery⟩) with started := s.started + 1 }
  | _, _ => s

/- `sem_wait` waits while the semaphore is zero, and `sem_init` sets it to zero. -/
def callerStep (s : State) (c : Caller) : State :=
  match s.threads c with
  | none => s
  | some p =>
    match p.stage with
    | .setQuery => { s.moved c (some { p with stage := .initSem }) with paramControl := p.query, owner := p.id }
    | .initSem => { s.moved c (some { p with stage := .setFlag }) with paramSem := 0 }
    | .setFlag => { s.moved c (some { p with stage := .waitSem }) with paramSemInit := true }
    | .waitSem =>
      if 0 < s.paramSem then { s.moved c (some { p with stage := .clearFlag }) with paramSem := s.paramSem - 1 } else s
    | .clearFlag => { s.moved c (some { p with stage := .destroySem }) with paramSemInit := false }
    | .destroySem => s.moved c (some { p with stage := .result })
    | .result => { s.moved c none with returned := s.returned ++ [⟨p.id, p.query, s.opResult⟩] }

inductive Event where
  | runner (status : PacketStatus)
  | call (c : Caller) (cmd : Command) (varName : Text)
  | caller (c : Caller)

def step (s : State) : Event → State
  | .runner status => runnerStep s status
  | .call c cmd varName => callStep s c cmd varName
  | .caller c => callerStep s c

def steps (s : State) (events : List Event) : State := events.foldl step s

def initial (opResult : PacketStatus) : State :=
  { paramControl := ⟨.request, paramSystem, 0⟩
    owner := 0
    paramSem := 0
    paramSemInit := false
    opResult := opResult
    runner := .sync
    threads := fun _ => none
    started := 0
    sends := []
    returned := [] }

/-! What is promised to a call, and what a turn may not do to it. -/

def sendsOf (s : State) (id : Nat) : List Send := s.sends.filter fun x => x.id = id

/- A call that returned was sent once, with its query, and returned the status of that; no call is sent twice. -/
structure Answered (s : State) : Prop where
  returned : ∀ a ∈ s.returned, sendsOf s a.id = [a]
  pending : ∀ c, ∀ p ∈ s.threads c, sendsOf s p.id = [] ∨ ∃ w, sendsOf s p.id = [⟨p.id, p.query, w⟩]

/- A call that has written its query and not come to its result. -/
def Stage.isOpen : Stage → Bool
  | .setQuery | .result => false
  | _ => true

def StepClear (s : State) : Event → Prop
  | .call _ _ _ => True
  | .caller c => (∃ p ∈ s.threads c, p.stage = .setQuery) → ∀ d, d ≠ c → ∀ q ∈ s.threads d, q.stage.isOpen = false
  | .runner status =>
    (s.runner = .testParamSem → s.paramSemInit = true → sendsOf s s.owner = []) ∧
      ∀ v ∈ s.runner.stores status, ∀ c, ∀ p ∈ s.threads c, ∀ x ∈ sendsOf s p.id, x.status = v

def RunClear : State → List Event → Prop
  | _, [] => True
  | s, e :: rest => StepClear s e ∧ RunClear (step s e) rest

end OrazioLogger.ParamCommands
