import OrazioLogger.WatchdogRuns

/-! The main loop one statement at a time, with the timer interrupt in front of any of them. -/
namespace OrazioLogger.Firmware
open OrazioClient (load32)

variable {F : Type}

/- What the main loop executes next: `++idle_cycles`, the test of `comm_handle`, and the statements of its body. -/
inductive Statement where
  | countIdle | testHandle
  | rememberRx | driveUpdate | driveControl | sonarHandle | commHandle | watchdogReset | watchdogHandle | clearHandle
  | clearIdle
  deriving DecidableEq, Repr

/- `previous` is `previous_rx_packets`. -/
structure Running (F : Type) where
  main : Main F
  next : Statement
  previous : UInt16

/- The timer ticks, with the encoders as sampled, or the next statement is executed, with what the sonars and the line
supply if it asks for them. -/
inductive Action where
  | tick (encoders : Nat → UInt16)
  | statement (ranges : Nat → UInt16) (line : Line)

def execute (b : Board F) (ranges : Nat → UInt16) (line : Line) (r : Running F) : Running F :=
  let s := r.main
  match r.next with
  | .countIdle => { r with main := s.update countIdle, next := .testHandle }
  | .testHandle => { r with next := if s.commHandle then .rememberRx else .countIdle }
  | .rememberRx => { r with previous := rxPackets s.app, next := .driveUpdate }
  | .driveUpdate => { r with main := s.update (driveUpdate b), next := .driveControl }
  | .driveControl => { r with main := s.update (driveControl b), next := .sonarHandle }
  | .sonarHandle => { r with main := if b.sonar then s.update (sonarHandle ranges) else s, next := .commHandle }
  | .commHandle => { r with main := { s with machine := (commHandle b line s.machine).2 }, next := .watchdogReset }
  | .watchdogReset =>
    { r with main := if r.previous ≠ rxPackets s.app then s.update watchdogReset else s, next := .watchdogHandle }
  | .watchdogHandle => { r with main := s.update watchdogHandle, next := .clearHandle }
  | .clearHandle => { r with main := { s with commHandle := false }, next := .clearIdle }
  | .clearIdle => { r with main := s.update (setIdleCycles 0), next := .countIdle }

def mainStep (b : Board F) (r : Running F) : Action → Running F
  | .tick encoders => { r with main := onTimerTick b r.main encoders }
  | .statement ranges line => execute b ranges line r

/- `while(1)` is entered. -/
def Main.running (s : Main F) : Running F := ⟨s, .countIdle, 0⟩

def runActions (b : Board F) (r : Running F) (actions : List Action) : Running F := actions.foldl (mainStep b) r

/-! A turn of the loop is such a run. -/

section Turns
variable {b : Board F} {s : Main F} {r : Running F} {turn : Turn}

def tickActions (turn : Turn) (point : Nat) : List Action := (turn.ticks point).map .tick

def bodyActions (turn : Turn) : List Action :=
  let go := Action.statement turn.ranges turn.line
  go :: tickActions turn 1 ++ go :: tickActions turn 2 ++ go :: tickActions turn 3 ++ go :: tickActions turn 4 ++
    go :: tickActions turn 5 ++ go :: tickActions turn 6 ++ go :: tickActions turn 7 ++ [go, go]

def turnActions (b : Board F) (s : Main F) (turn : Turn) : List Action :=
  let go := Action.statement turn.ranges turn.line
  tickActions turn 0 ++ [go, go] ++ if handles b s turn then bodyActions turn else []

theorem runAppend (first second : List Action) :
    runActions b r (first ++ second) = runActions b (runActions b r first) second := List.foldl_append

theorem runTicks (point : Nat) : runActions b r (tickActions turn point) = { r with main := ticks b turn point r.main } := by
  unfold tickActions ticks runActions
  induction turn.ticks point generalizing r with
  | nil => rfl
  | cons encoders rest ih => exact ih (r := mainStep b r (.tick encoders))

theorem runCons (action : Action) (rest : List Action) :
    runActions b r (action :: rest) = runActions b (mainStep b r action) rest := rfl

theorem runBody (previous : UInt16) : runActions b ⟨s, .rememberRx, previous⟩ (bodyActions turn) =
    ⟨handleCycle b turn s, .countIdle, rxPackets s.app⟩ := by
  simp only [bodyActions, runAppend, runCons, runTicks, mainStep, execute]
  rfl

theorem turnRuns (b : Board F) (s : Main F) (turn : Turn) (previous : UInt16) :
    runActions b ⟨s, .countIdle, previous⟩ (turnActions b s turn) =
      ⟨loopTurn b s turn, .countIdle, if handles b s turn then rxPackets (idleTurn b s turn).app else previous⟩ := by
  have head : runActions b ⟨s, .countIdle, previous⟩ (tickActions turn 0 ++ [.statement turn.ranges turn.line,
      .statement turn.ranges turn.line]) =
      ⟨idleTurn b s turn, if handles b s turn then .rememberRx else .countIdle, previous⟩ := by
    rw [runAppend, runTicks]
    rfl
  rw [turnActions, runAppend, head]
  cases handled : handles b s turn with
  | false => rw [loopTurnIdle handled]; rfl
  | true =>
    have found : (idleTurn b s turn).commHandle = true := handled
    rw [loopTurn, if_pos found]
    exact runBody previous

/- Any run of whole turns is one of statements and ticks. -/
theorem loopRuns (b : Board F) (s : Main F) (turns : List Turn) (previous : UInt16) :
    ∃ actions last, runActions b ⟨s, .countIdle, previous⟩ actions = ⟨loop b s turns, .countIdle, last⟩ := by
  induction turns generalizing s previous with
  | nil => exact ⟨[], previous, rfl⟩
  | cons turn rest ih =>
    obtain ⟨actions, last, runs⟩ := ih (loopTurn b s turn)
      (if handles b s turn then rxPackets (idleTurn b s turn).app else previous)
    refine ⟨turnActions b s turn ++ actions, last, ?_⟩
    rw [runAppend, turnRuns, runs]
    rfl

end Turns

end OrazioLogger.Firmware
