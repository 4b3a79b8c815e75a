import OrazioLogger.ParamTurns

/-! That a command of a run without a slip is always answered in the end, and runs with one. -/
namespace OrazioLogger.ParamCommands
open Logger (Text)
open OrazioPackets

variable {s : State} {c : Caller} {p : Pending} {id : Nat}

/- The call can be brought to its return, and no other call moves meanwhile. -/
def Returns (s : State) (c : Caller) (id : Nat) : Prop :=
  ∃ more, RunClear s more ∧ (∃ a ∈ (steps s more).returned, a.id = id) ∧ (steps s more).threads c = none ∧
    ∀ d, d ≠ c → (steps s more).threads d = s.threads d

theorem Returns.after {e : Event} (clear : StepClear s e) (others : ∀ d, d ≠ c → (step s e).threads d = s.threads d)
    (later : Returns (step s e) c id) : Returns s c id := by
  obtain ⟨more, run, answered, gone, kept⟩ := later
  exact ⟨e :: more, ⟨clear, run⟩, answered, gone, fun d other => (kept d other).trans (others d other)⟩

/-! The accesses of the call itself. -/

theorem Returns.caller {t : State} (clear : StepClear s (.caller c)) (turn : callerStep s c = t)
    (others : ∀ d, d ≠ c → t.threads d = s.threads d) (later : Returns t c id) : Returns s c id :=
  .after clear (fun d other => (congrArg (·.threads d) turn).trans (others d other)) (by rw [step, turn]; exact later)

theorem callerClear (at_ : s.threads c = some p) (begun : p.stage ≠ .setQuery) : StepClear s (.caller c) := by
  rintro ⟨q, there, start⟩
  obtain rfl : p = q := Option.some.inj (at_.symm.trans there)
  exact absurd start begun

theorem returnsResult (at_ : s.threads c = some p) (stage : p.stage = .result) : Returns s c p.id := by
  have turn : callerStep s c = { s.moved c none with returned := s.returned ++ [⟨p.id, p.query, s.opResult⟩] } := by
    simp only [callerStep, at_, stage]
  refine ⟨[.caller c], ⟨callerClear at_ (by rw [stage]; decide), trivial⟩, ?_⟩
  rw [steps, List.foldl_cons, List.foldl_nil, step, turn]
  exact ⟨⟨_, List.mem_append_right _ (List.mem_singleton_self _), rfl⟩, movedSelf s c none, fun d other => movedOther s other none⟩

theorem returnsDestroySem (at_ : s.threads c = some p) (stage : p.stage = .destroySem) : Returns s c p.id := by
  have turn : callerStep s c = s.moved c (some { p with stage := .result }) := by
    simp only [callerStep, at_, stage]
  exact .caller (callerClear at_ (by rw [stage]; decide)) turn (fun d other => movedOther s other _)
    (returnsResult (p := { p with stage := .result }) (movedSelf s c _) rfl)

theorem returnsClearFlag (at_ : s.threads c = some p) (stage : p.stage = .clearFlag) : Returns s c p.id := by
  have turn : callerStep s c = { s.moved c (some { p with stage := .destroySem }) with paramSemInit := false } := by
    simp only [callerStep, at_, stage]
  exact .caller (callerClear at_ (by rw [stage]; decide)) turn (fun d other => movedOther s other _)
    (returnsDestroySem (p := { p with stage := .destroySem }) (movedSelf s c _) rfl)

theorem returnsPosted (at_ : s.threads c = some p) (stage : p.stage = .waitSem) (posted : 0 < s.paramSem) :
    Returns s c p.id := by
  have turn : callerStep s c =
      { s.moved c (some { p with stage := .clearFlag }) with paramSem := s.paramSem - 1 } := by
    simp only [callerStep, at_, stage, if_pos posted]
  exact .caller (callerClear at_ (by rw [stage]; decide)) turn (fun d other => movedOther s other _)
    (returnsClearFlag (p := { p with stage := .clearFlag }) (movedSelf s c _) rfl)

/-! The runner's way to the post that ends the wait. -/

theorem runnerThreads (s : State) (status : PacketStatus) : (runnerStep s status).threads = s.threads := by
  unfold runnerStep
  split <;> rfl

/- No fewer turns than are left to the post. -/
def Runner.away : Runner → Nat
  | .sync => 60
  | .refreshMessage => 59
  | .clearState => 58
  | .getState i => 41 + 2 * (stateGets - i)
  | .testState i => 42 + 2 * (stateGets - (i + 1))
  | .getResponse => 40
  | .returnState => 39
  | .testStateSem => 38
  | .testParamSem => 37
  | .send => 36
  | .storeSent _ => 35
  | .testSent => 34
  | .readType => 33
  | .clearParams _ => 32
  | .getJoint i => 12 + 2 * (numJoints - i)
  | .testJoint i => if i + 1 < numJoints then 13 + 2 * (numJoints - (i + 1)) else 11
  | .getParams | .returnParams => 2
  | .post => 1

theorem runnerNearer (before : s.runner ≠ .post) (flag : s.paramSemInit = true) :
    (runnerStep s .success).runner.away < s.runner.away := by
  unfold runnerStep
  cases pc : s.runner with
  | post => exact absurd pc before
  | testParamSem => simp only [if_pos flag]; decide
  | getState i =>
    dsimp only
    split <;> simp only [Runner.away, stateGets, numJoints] at * <;> omega
  | testState i =>
    dsimp only
    split <;> simp only [Runner.away] <;> omega
  | testSent =>
    dsimp only
    split <;> decide
  | clearParams type =>
    dsimp only
    split <;> simp only [Runner.away, numJoints] <;> decide
  | testJoint i =>
    dsimp only
    split
    next more => simp only [Runner.away, if_pos more.2]; omega
    · simp only [Runner.away]
      split <;> omega
  | getJoint i =>
    simp only [Runner.away]
    split <;> omega
  | _ => simp only [Runner.away]; decide

theorem finishingStores {r : Runner} (zone : r.zone = .finishing) {v : PacketStatus} (stored : v ∈ r.stores .success) :
    r.refreshing = true ∧ v = .success := by
  cases r with
  | clearParams type => exact ⟨rfl, (Option.some.inj stored).symm⟩
  | getJoint i => exact ⟨rfl, (Option.some.inj stored).symm⟩
  | storeSent | clearState | getState => cases zone
  | _ => cases stored

/- While a call waits, a turn of the runner in which the client succeeds does it no harm. -/
theorem waitingClear (orderly : Orderly s) (at_ : s.threads c = some p) (stage : p.stage = .waitSem) (sem : s.paramSem = 0)
    (others : ∀ d, d ≠ c → ∀ q ∈ s.threads d, q.stage = .setQuery) :
    StepClear s (.runner .success) ∧ s.paramSemInit = true := by
  obtain ⟨_, owner, _, serving⟩ := orderly.phase.open_ at_ (by rw [stage]; rfl)
  have unsentOthers : ∀ d, d ≠ c → ∀ q ∈ s.threads d, sendsOf s q.id = [] :=
    fun d other q there => orderly.fresh d q there (others d other q there)
  have clearBy : ∀ {r : List Send}, sendsOf s p.id = r → (∀ v ∈ s.runner.stores .success, ∀ x ∈ r, x.status = v) →
      ∀ v ∈ s.runner.stores .success, ∀ d, ∀ q ∈ s.threads d, ∀ x ∈ sendsOf s q.id, x.status = v := by
    intro r own kept v stored d q there x among
    by_cases same : d = c
    · subst same
      obtain rfl : p = q := Option.some.inj (at_.symm.trans there)
      rw [own] at among
      exact kept v stored x among
    · rw [unsentOthers d same q there] at among
      cases among
  cases serving with
  | asking other | leaving other => rw [stage] at other; simp at other
  | posted other =>
    rw [stage, sem] at other
    simp at other
  | waiting _ flag _ _ unsent =>
    refine ⟨⟨fun _ _ => owner ▸ unsent, clearBy unsent fun _ _ x among => ?_⟩, flag⟩
    cases among
  | storing w _ flag _ runner sent =>
    refine ⟨⟨fun pc => ?_, clearBy sent fun v stored x among => ?_⟩, flag⟩
    · rw [runner] at pc
      cases pc
    · rw [runner] at stored
      rw [List.mem_singleton.mp among]
      exact Option.some.inj stored
  | finishing _ flag _ runner sent succeeded =>
    refine ⟨⟨fun pc => ?_, clearBy sent fun v stored x among => ?_⟩, flag⟩
    · rw [pc] at runner
      cases runner
    · obtain ⟨refreshing, success⟩ := finishingStores runner stored
      rw [List.mem_singleton.mp among, success]
      exact succeeded refreshing

theorem returnsWaiting {left : Nat} : ∀ {s : State}, s.runner.away = left → Orderly s → s.threads c = some p →
    p.stage = .waitSem → (∀ d, d ≠ c → ∀ q ∈ s.threads d, q.stage = .setQuery) → Returns s c p.id := by
  induction left using Nat.strong_induction_on with
  | _ left ih =>
    intro s distance orderly at_ stage others
    rcases Nat.eq_zero_or_pos s.paramSem with sem | posted
    · obtain ⟨clear, flag⟩ := waitingClear orderly at_ stage sem others
      have same : (runnerStep s .success).threads = s.threads := runnerThreads s .success
      have there : (runnerStep s .success).threads c = some p := by rw [same, at_]
      refine .after clear (fun d _ => congrFun same d) ?_
      by_cases last : s.runner = .post
      · refine returnsPosted there stage ?_
        simp only [step, runnerStep, last]
        exact Nat.succ_pos _
      · refine ih _ (distance ▸ runnerNearer last flag) rfl (orderly.runner clear) there stage fun d other q held => ?_
        rw [step, same] at held
        exact others d other q held
    · exact returnsPosted at_ stage posted

/-! A call alone, from its start. -/

theorem movedOthers {q : Option Pending} (others : ∀ d, d ≠ c → ∀ q ∈ s.threads d, q.stage = .setQuery) :
    ∀ d, d ≠ c → ∀ r ∈ (s.moved c q).threads d, r.stage = .setQuery := by
  intro d other r held
  rw [movedOther s other] at held
  exact others d other r held

theorem returnsSetFlag (orderly : Orderly s) (at_ : s.threads c = some p) (stage : p.stage = .setFlag)
    (others : ∀ d, d ≠ c → ∀ q ∈ s.threads d, q.stage = .setQuery) : Returns s c p.id := by
  have turn : callerStep s c = { s.moved c (some { p with stage := .waitSem }) with paramSemInit := true } := by
    simp only [callerStep, at_, stage]
  have clear := callerClear at_ (by rw [stage]; decide)
  have next := orderly.caller clear
  rw [turn] at next
  exact .caller clear turn (fun d other => movedOther s other _)
    (returnsWaiting (p := { p with stage := .waitSem }) rfl next (movedSelf s c _) rfl (movedOthers others))

theorem returnsInitSem (orderly : Orderly s) (at_ : s.threads c = some p) (stage : p.stage = .initSem)
    (others : ∀ d, d ≠ c → ∀ q ∈ s.threads d, q.stage = .setQuery) : Returns s c p.id := by
  have turn : callerStep s c = { s.moved c (some { p with stage := .setFlag }) with paramSem := 0 } := by
    simp only [callerStep, at_, stage]
  have clear := callerClear at_ (by rw [stage]; decide)
  have next := orderly.caller clear
  rw [turn] at next
  exact .caller clear turn (fun d other => movedOther s other _)
    (returnsSetFlag (p := { p with stage := .setFlag }) next (movedSelf s c _) rfl (movedOthers others))

theorem returnsSetQuery (orderly : Orderly s) (at_ : s.threads c = some p) (stage : p.stage = .setQuery)
    (others : ∀ d, d ≠ c → ∀ q ∈ s.threads d, q.stage = .setQuery) : Returns s c p.id := by
  have turn : callerStep s c =
      { s.moved c (some { p with stage := .initSem }) with paramControl := p.query, owner := p.id } := by
    simp only [callerStep, at_, stage]
  have clear : StepClear s (.caller c) := fun _ d other q there => by
    rw [others d other q there]
    rfl
  have next := orderly.caller clear
  rw [turn] at next
  exact .caller clear turn (fun d other => movedOther s other _)
    (returnsInitSem (p := { p with stage := .initSem }) next (movedSelf s c _) rfl (movedOthers others))

theorem returnsAlone (orderly : Orderly s) (at_ : s.threads c = some p)
    (others : ∀ d, d ≠ c → ∀ q ∈ s.threads d, q.stage = .setQuery) : Returns s c p.id := by
  cases stage : p.stage with
  | setQuery => exact returnsSetQuery orderly at_ stage others
  | initSem => exact returnsInitSem orderly at_ stage others
  | setFlag => exact returnsSetFlag orderly at_ stage others
  | waitSem => exact returnsWaiting rfl orderly at_ stage others
  | clearFlag => exact returnsClearFlag at_ stage
  | destroySem => exact returnsDestroySem at_ stage
  | result => exact returnsResult at_ stage

/-! Two calls: one of them is brought to its return first. -/

theorem stepsAppend (s : State) (events more : List Event) : steps s (events ++ more) = steps (steps s events) more :=
  List.foldl_append

theorem runClearAppend {more : List Event} : ∀ {events : List Event} {s : State},
    RunClear s events → RunClear (steps s events) more → RunClear s (events ++ more)
  | [], _, _, clear => clear
  | _ :: _, _, clear, later => ⟨clear.1, runClearAppend clear.2 later⟩

def Caller.other : Caller → Caller
  | .shell => .websocket
  | .websocket => .shell

theorem otherOf {c d : Caller} (different : d ≠ c) : d = c.other := by
  cases c <;> cases d <;> first | rfl | exact absurd rfl different

/- A call that has begun is the only one, or at its result while the other call runs. -/
theorem returnsBegun (orderly : Orderly s) (at_ : s.threads c = some p) (begun : p.stage ≠ .setQuery)
    (others : ∀ d, d ≠ c → ∀ q ∈ s.threads d, q.stage ≠ .result) : Returns s c p.id := by
  by_cases stage : p.stage = .result
  · exact returnsResult at_ stage
  · have open_ : p.stage.isOpen = true := by
      cases at__ : p.stage with
      | setQuery => exact absurd at__ begun
      | result => exact absurd at__ stage
      | _ => rfl
    obtain ⟨alone, _⟩ := orderly.phase.open_ at_ open_
    refine returnsAlone orderly at_ fun d other q there => ?_
    have closed := alone d other q there
    have going := others d other q there
    cases at__ : q.stage with
    | setQuery => rfl
    | result => exact absurd at__ going
    | _ =>
      rw [at__] at closed
      cases closed

theorem returnsAny (orderly : Orderly s) (at_ : s.threads c = some p) :
    ∃ more, RunClear s more ∧ ∃ a ∈ (steps s more).returned, a.id = p.id := by
  have only : ∀ {P : Pending → Prop}, (∀ q ∈ s.threads c.other, P q) → ∀ d, d ≠ c → ∀ q ∈ s.threads d, P q :=
    fun all d different q there => all q (otherOf different ▸ there)
  have done : ∀ {s : State}, Returns s c p.id → ∃ more, RunClear s more ∧ ∃ a ∈ (steps s more).returned, a.id = p.id :=
    fun ⟨more, clear, answered, _⟩ => ⟨more, clear, answered⟩
  by_cases own : p.stage = .result
  · exact done (returnsResult at_ own)
  cases held : s.threads c.other with
  | none => exact done (returnsAlone orderly at_ (only fun q there => by rw [held] at there; cases there))
  | some q =>
    by_cases waits : q.stage = .setQuery
    · exact done (returnsAlone orderly at_ (only fun r there => Option.some.inj (held.symm.trans there) ▸ waits))
    · have apart : c ≠ c.other := by cases c <;> decide
      have running : ∀ d, d ≠ c.other → ∀ r ∈ s.threads d, r.stage ≠ .result := by
        intro d different r there
        have same : d = c := by
          have := otherOf different
          cases c <;> exact this
        subst same
        obtain rfl : p = r := Option.some.inj (at_.symm.trans there)
        exact own
      obtain ⟨first, clear, _, gone, kept⟩ := returnsBegun orderly held waits running
      have at' : (steps s first).threads c = some p := (kept c apart).trans at_
      obtain ⟨more, later, answered, _⟩ := returnsAlone (orderlyRun orderly clear) at' fun d different r there => by
        rw [otherOf different, gone] at there
        cases there
      refine ⟨first ++ more, runClearAppend clear later, ?_⟩
      rw [stepsAppend]
      exact answered

/- In a run whose turns are clear every call that returned was sent once and returned the status of that, no call is
sent twice, and every call that has not returned can still be brought to it. -/
theorem paramCommandsAnswered (opResult : PacketStatus) (events : List Event) (clear : RunClear (initial opResult) events) :
    Answered (steps (initial opResult) events) ∧ ∀ c, ∀ p ∈ (steps (initial opResult) events).threads c,
      ∃ more, RunClear (initial opResult) (events ++ more) ∧
        ∃ a ∈ (steps (initial opResult) (events ++ more)).returned, a.id = p.id := by
  have orderly := orderlyRun (orderlyInitial opResult) clear
  refine ⟨orderly.answered, fun c p at_ => ?_⟩
  obtain ⟨more, later, answered⟩ := returnsAny orderly at_
  refine ⟨more, runClearAppend clear later, ?_⟩
  rw [stepsAppend]
  exact answered

instance (P : Caller → Prop) [DecidablePred P] : Decidable (∀ c, P c) :=
  decidable_of_iff (P .shell ∧ P .websocket) ⟨fun both c => by cases c; exacts [both.1, both.2], fun all => ⟨all _, all _⟩⟩

instance (s e) : Decidable (StepClear s e) := by
  cases e <;> unfold StepClear <;> infer_instance

def decideRunClear : (s : State) → (events : List Event) → Decidable (RunClear s events)
  | _, [] => .isTrue trivial
  | s, e :: rest =>
    have := decideRunClear (step s e) rest
    inferInstanceAs (Decidable (StepClear s e ∧ RunClear (step s e) rest))

instance (s events) : Decidable (RunClear s events) := decideRunClear s events

def asks (c : Caller) (cmd : Command) (varName : String) : List Event :=
  .call c cmd varName.toList :: List.replicate 3 (.caller c)

def takesAnswer (c : Caller) : List Event := List.replicate 4 (.caller c)

/- Up to the turn that sends a query, if the flag is set. -/
def loops : List Event := List.replicate 18 (.runner .success)

def serves : List Event := loops ++ List.replicate 7 (.runner .success)

def timesOut : List Event := loops ++ List.replicate 4 (.runner .timeout)

def oneByOne : List Event :=
  asks .shell .request "system_params" ++ serves ++ takesAnswer .shell ++
    (asks .websocket .store "joint_params[1]" ++ timesOut ++ takesAnswer .websocket)

theorem oneByOneAnswered : RunClear (initial .genericError) oneByOne ∧
    (steps (initial .genericError) oneByOne).returned =
      [⟨1, ⟨.request, paramSystem, 0⟩, .success⟩, ⟨2, ⟨.save, paramJointsSingle, 1⟩, .timeout⟩] ∧
    Answered (steps (initial .genericError) oneByOne) :=
  ⟨by decide +kernel, by decide +kernel, (paramCommandsAnswered .genericError oneByOne (by decide +kernel)).1⟩

theorem notAnswered {a : Send} (among : a ∈ s.returned) (other : sendsOf s a.id ≠ [a]) : ¬ Answered s :=
  fun answered => other (answered.returned a among)

/- The caller does not run before the runner's next loop. -/
def sentTwice : List Event := asks .shell .request "system_params" ++ serves ++ serves ++ takesAnswer .shell

/- The second call writes its query before the first one is sent. -/
def swapped : List Event :=
  asks .shell .request "system_params" ++ asks .websocket .store "drive_params" ++ serves ++ takesAnswer .shell

/- refreshState stores its Success before the caller reads the result. -/
def overwritten : List Event :=
  asks .shell .request "system_params" ++ timesOut ++ List.replicate 3 (.runner .success) ++ takesAnswer .shell

theorem commandsCrossed : ¬ Answered (steps (initial .success) sentTwice) ∧ ¬ Answered (steps (initial .success) swapped) ∧
    ¬ Answered (steps (initial .success) overwritten) := by
  refine ⟨notAnswered (a := ⟨1, ⟨.request, paramSystem, 0⟩, .success⟩) (by decide +kernel) (by decide +kernel),
    notAnswered (a := ⟨1, ⟨.request, paramSystem, 0⟩, .success⟩) (by decide +kernel) (by decide +kernel),
    notAnswered (a := ⟨1, ⟨.request, paramSystem, 0⟩, .success⟩) (by decide +kernel) (by decide +kernel)⟩

end OrazioLogger.ParamCommands
