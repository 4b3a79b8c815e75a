import OrazioLogger.ParamCommands

/-! One parameter command at a time: where the call, the runner and what they share stand between two turns of a run
that keeps to it. -/
namespace OrazioLogger.ParamCommands
open Logger (Text)

/- Where the runner is: at none of a command's accesses, before the send, with a status to store, or past that. -/
inductive Zone where
  | away | sending | storing | finishing
  deriving DecidableEq

def Runner.zone : Runner → Zone
  | .send => .sending
  | .storeSent _ => .storing
  | .testSent | .readType | .clearParams _ | .getJoint _ | .testJoint _ | .getParams | .returnParams | .post => .finishing
  | _ => .away

/- The accesses of refreshParams, which is called after a send that succeeded. -/
def Runner.refreshing : Runner → Bool
  | .readType | .clearParams _ | .getJoint _ | .testJoint _ | .getParams | .returnParams => true
  | _ => false

/- What a turn of the runner can do. -/
inductive RunnerMove (s : State) (status : PacketStatus) : State → Prop where
  | quiet (r : PacketStatus) (pc : Runner) (zone : pc.zone = s.runner.zone)
      (idle : s.runner.zone = .away ∨ s.runner.zone = .finishing) (stored : r = s.opResult ∨ r ∈ s.runner.stores status)
      (refreshing : pc.refreshing = true → s.runner.refreshing = true ∨ s.opResult = .success) :
      RunnerMove s status { s with opResult := r, runner := pc }
  | take (pc : s.runner = .testParamSem) (flag : s.paramSemInit = true) : RunnerMove s status { s with runner := .send }
  | send (pc : s.runner = .send) :
      RunnerMove s status { s with runner := .storeSent status, sends := s.sends ++ [⟨s.owner, s.paramControl, status⟩] }
  | store (w : PacketStatus) (pc : s.runner = .storeSent w) : RunnerMove s status { s with opResult := w, runner := .testSent }
  | post (pc : s.runner = .post) : RunnerMove s status { s with paramSem := s.paramSem + 1, runner := .sync }

theorem quietMove {s : State} {status r : PacketStatus} {from_ pc : Runner} (at_ : s.runner = from_) (zone : pc.zone = from_.zone)
    (idle : from_.zone = .away ∨ from_.zone = .finishing) (stored : r = s.opResult ∨ r ∈ from_.stores status)
    (refreshing : pc.refreshing = false ∨ from_.refreshing = true) : RunnerMove s status { s with opResult := r, runner := pc } :=
  .quiet r pc (by rw [at_, zone]) (by rw [at_]; exact idle) (by rw [at_]; exact stored) fun is_ => by
    rcases refreshing with not_ | before
    · rw [is_] at not_
      cases not_
    · exact .inl (at_ ▸ before)

theorem runnerMoves (s : State) (status : PacketStatus) : RunnerMove s status (runnerStep s status) := by
  unfold runnerStep
  cases pc : s.runner with
  | sync => exact quietMove pc rfl (.inl rfl) (.inl rfl) (.inl rfl)
  | refreshMessage => exact quietMove pc rfl (.inl rfl) (.inl rfl) (.inl rfl)
  | clearState => exact quietMove pc rfl (.inl rfl) (.inr rfl) (.inl rfl)
  | getState i => exact quietMove pc (by split <;> rfl) (.inl rfl) (.inr rfl) (.inl (by split <;> rfl))
  | testState i => exact quietMove pc (by split <;> rfl) (.inl rfl) (.inl rfl) (.inl (by split <;> rfl))
  | getResponse => exact quietMove pc rfl (.inl rfl) (.inl rfl) (.inl rfl)
  | returnState => exact quietMove pc rfl (.inl rfl) (.inl rfl) (.inl rfl)
  | testStateSem => exact quietMove pc rfl (.inl rfl) (.inl rfl) (.inl rfl)
  | testParamSem =>
    by_cases flag : s.paramSemInit = true
    · simp only [if_pos flag]
      exact .take pc flag
    · simp only [if_neg flag]
      exact quietMove pc rfl (.inl rfl) (.inl rfl) (.inl rfl)
  | send => exact .send pc
  | storeSent sent => exact .store sent pc
  | testSent =>
    by_cases success : s.opResult = .success
    · simp only [if_pos success]
      exact .quiet s.opResult .readType (by rw [pc]; rfl) (.inr (by rw [pc]; rfl)) (.inl rfl) fun _ => .inr success
    · simp only [if_neg success]
      exact quietMove pc rfl (.inr rfl) (.inl rfl) (.inl rfl)
  | readType => exact quietMove pc rfl (.inr rfl) (.inl rfl) (.inr rfl)
  | clearParams type => exact quietMove pc (by split <;> rfl) (.inr rfl) (.inr rfl) (.inr rfl)
  | getJoint i => exact quietMove pc rfl (.inr rfl) (.inr rfl) (.inr rfl)
  | testJoint i => exact quietMove pc (by split <;> rfl) (.inr rfl) (.inl rfl) (.inr rfl)
  | getParams => exact quietMove pc rfl (.inr rfl) (.inl rfl) (.inl rfl)
  | returnParams => exact quietMove pc rfl (.inr rfl) (.inl rfl) (.inl rfl)
  | post => exact .post pc

/-! Where a call stands between two turns. -/

def Unsent (s : State) (p : Pending) : Prop := sendsOf s p.id = []

def Sent (s : State) (p : Pending) (w : PacketStatus) : Prop := sendsOf s p.id = [⟨p.id, p.query, w⟩]

/- The open call, from its query to its result. -/
inductive Serving (s : State) (p : Pending) : Prop where
  | asking (stage : p.stage = .initSem ∨ p.stage = .setFlag ∧ s.paramSem = 0) (flag : s.paramSemInit = false)
      (runner : s.runner.zone = .away) (unsent : Unsent s p)
  | waiting (stage : p.stage = .waitSem) (flag : s.paramSemInit = true) (sem : s.paramSem = 0)
      (runner : s.runner.zone = .away ∨ s.runner = .send) (unsent : Unsent s p)
  | storing (w : PacketStatus) (stage : p.stage = .waitSem) (flag : s.paramSemInit = true) (sem : s.paramSem = 0)
      (runner : s.runner = .storeSent w) (sent : Sent s p w)
  | finishing (stage : p.stage = .waitSem) (flag : s.paramSemInit = true) (sem : s.paramSem = 0)
      (runner : s.runner.zone = .finishing) (sent : Sent s p s.opResult)
      (succeeded : s.runner.refreshing = true → s.opResult = .success)
  | posted (stage : p.stage = .waitSem ∧ s.paramSem = 1 ∨ p.stage = .clearFlag) (flag : s.paramSemInit = true)
      (runner : s.runner.zone = .away) (sent : Sent s p s.opResult)
  | leaving (stage : p.stage = .destroySem) (flag : s.paramSemInit = false) (runner : s.runner.zone = .away)
      (sent : Sent s p s.opResult)

/- At most one call is open; without one the runner has nothing to send. -/
inductive Phase (s : State) : Prop where
  | rest (closed : ∀ d, ∀ q ∈ s.threads d, q.stage.isOpen = false) (flag : s.paramSemInit = false)
      (runner : s.runner.zone = .away)
  | busy (c : Caller) (p : Pending) (at_ : s.threads c = some p)
      (alone : ∀ d, d ≠ c → ∀ q ∈ s.threads d, q.stage.isOpen = false) (owner : s.owner = p.id)
      (query : s.paramControl = p.query) (serving : Serving s p)

structure Numbered (s : State) : Prop where
  within : ∀ c, ∀ p ∈ s.threads c, p.id ≤ s.started
  apart : ∀ c d, ∀ p ∈ s.threads c, ∀ q ∈ s.threads d, p.id = q.id → c = d
  sends : ∀ x ∈ s.sends, x.id ≤ s.started
  returned : ∀ a ∈ s.returned, a.id ≤ s.started
  gone : ∀ a ∈ s.returned, ∀ c, ∀ p ∈ s.threads c, p.id ≠ a.id

structure Orderly (s : State) : Prop where
  numbered : Numbered s
  returned : ∀ a ∈ s.returned, sendsOf s a.id = [a]
  fresh : ∀ c, ∀ p ∈ s.threads c, p.stage = .setQuery → Unsent s p
  ended : ∀ c, ∀ p ∈ s.threads c, p.stage = .result → Sent s p s.opResult
  phase : Phase s

variable {s t : State} {c : Caller} {p : Pending}

theorem Serving.isOpen (serving : Serving s p) : p.stage.isOpen = true := by
  cases serving with
  | asking stage =>
    rcases stage with stage | ⟨stage, _⟩
    · rw [stage]; rfl
    · rw [stage]; rfl
  | posted stage =>
    rcases stage with ⟨stage, _⟩ | stage
    · rw [stage]; rfl
    · rw [stage]; rfl
  | waiting stage | storing _ stage | finishing stage | leaving stage => rw [stage]; rfl

theorem Orderly.answered (orderly : Orderly s) : Answered s := by
  refine ⟨orderly.returned, fun c p at_ => ?_⟩
  cases stage : p.stage with
  | setQuery => exact .inl (orderly.fresh c p at_ stage)
  | result => exact .inr ⟨_, orderly.ended c p at_ stage⟩
  | _ =>
    have open_ : p.stage.isOpen = true := by rw [stage]; rfl
    cases orderly.phase with
    | rest closed => exact absurd (closed c p at_) (by rw [open_]; decide)
    | busy d q there alone owner query serving =>
      by_cases same : c = d
      · obtain rfl : q = p := Option.some.inj (there.symm.trans (same ▸ at_))
        cases serving with
        | asking _ _ _ unsent | waiting _ _ _ _ unsent => exact .inl unsent
        | storing w _ _ _ _ sent => exact .inr ⟨w, sent⟩
        | finishing _ _ _ _ sent _ | posted _ _ _ sent | leaving _ _ _ sent => exact .inr ⟨_, sent⟩
      · exact absurd (alone c same p at_) (by rw [open_]; decide)

/-! Turns of the runner. -/

theorem Serving.quiet (serving : Serving s p) {r : PacketStatus} {pc : Runner} (zone : pc.zone = s.runner.zone)
    (idle : s.runner.zone = .away ∨ s.runner.zone = .finishing) (kept : Sent s p s.opResult → s.opResult = r)
    (refreshing : pc.refreshing = true → s.runner.refreshing = true ∨ s.opResult = .success) :
    Serving { s with opResult := r, runner := pc } p := by
  have stays : Sent s p s.opResult → Sent s p r := fun sent => kept sent ▸ sent
  cases serving with
  | asking stage flag runner unsent => exact .asking stage flag (zone.trans runner) unsent
  | waiting stage flag sem runner unsent =>
    refine .waiting stage flag sem (.inl (zone.trans ?_)) unsent
    rcases runner with away | send
    · exact away
    · rw [send] at idle
      rcases idle with idle | idle <;> cases idle
  | storing w stage flag sem runner sent =>
    rw [runner] at idle
    rcases idle with idle | idle <;> cases idle
  | finishing stage flag sem runner sent succeeded =>
    refine .finishing stage flag sem (zone.trans runner) (stays sent) fun is_ => ?_
    rcases refreshing is_ with before | success
    · exact (kept sent).symm.trans (succeeded before)
    · exact (kept sent).symm.trans success
  | posted stage flag runner sent => exact .posted stage flag (zone.trans runner) (stays sent)
  | leaving stage flag runner sent => exact .leaving stage flag (zone.trans runner) (stays sent)

/- A turn of the runner that sends nothing. -/
theorem Orderly.runnerTurn (orderly : Orderly s) {sem : Nat} {r : PacketStatus} {pc : Runner}
    (kept : ∀ c, ∀ p ∈ s.threads c, Sent s p s.opResult → s.opResult = r)
    (phase : Phase { s with paramSem := sem, opResult := r, runner := pc }) :
    Orderly { s with paramSem := sem, opResult := r, runner := pc } := by
  refine ⟨⟨orderly.numbered.within, orderly.numbered.apart, orderly.numbered.sends, orderly.numbered.returned,
    orderly.numbered.gone⟩, orderly.returned, orderly.fresh, fun c p at_ stage => ?_, phase⟩
  have sent := orderly.ended c p at_ stage
  change Sent s p r
  rw [← kept c p at_ sent]
  exact sent

theorem Orderly.quiet (orderly : Orderly s) {r : PacketStatus} {pc : Runner} (zone : pc.zone = s.runner.zone)
    (idle : s.runner.zone = .away ∨ s.runner.zone = .finishing)
    (kept : ∀ c, ∀ p ∈ s.threads c, Sent s p s.opResult → s.opResult = r)
    (refreshing : pc.refreshing = true → s.runner.refreshing = true ∨ s.opResult = .success) :
    Orderly { s with opResult := r, runner := pc } := by
  refine orderly.runnerTurn kept ?_
  cases orderly.phase with
  | rest closed flag runner => exact .rest closed flag (zone.trans runner)
  | busy c p at_ alone owner query serving =>
    exact .busy c p at_ alone owner query (serving.quiet zone idle (kept c p at_) refreshing)

/- What the condition of a turn says of the sends already made. -/
theorem keptBy {status r : PacketStatus} (clear : StepClear s (.runner status))
    (stored : r = s.opResult ∨ r ∈ s.runner.stores status) : ∀ c, ∀ p ∈ s.threads c, Sent s p s.opResult → s.opResult = r := by
  intro c p at_ sent
  rcases stored with same | stored
  · exact same.symm
  · have own : (⟨p.id, p.query, s.opResult⟩ : Send) ∈ sendsOf s p.id := by
      rw [sent]
      exact List.mem_singleton_self _
    exact clear.2 r stored c p at_ _ own

/- The runner finds the flag set: a call waits, and its query is not sent yet. -/
theorem Orderly.take (orderly : Orderly s) (unsent : sendsOf s s.owner = []) (pc : s.runner = .testParamSem)
    (flag : s.paramSemInit = true) : Orderly { s with runner := .send } := by
  have away : s.runner.zone = .away := by rw [pc]; rfl
  refine orderly.runnerTurn (fun _ _ _ _ => rfl) ?_
  cases orderly.phase with
  | rest _ clear => exact absurd (flag.symm.trans clear) (by decide)
  | busy c p at_ alone owner query serving =>
    refine .busy c p at_ alone owner query ?_
    cases serving with
    | asking _ clear | leaving _ clear => exact absurd (flag.symm.trans clear) (by decide)
    | waiting stage flag sem _ unsent => exact .waiting stage flag sem (.inr rfl) unsent
    | storing w _ _ _ runner => rw [pc] at runner; cases runner
    | finishing _ _ _ runner => rw [away] at runner; cases runner
    | posted _ _ _ sent =>
      rw [owner, sent] at unsent
      cases unsent

theorem sendsOfSend (s : State) (x : Send) (pc : Runner) (id : Nat) :
    sendsOf { s with runner := pc, sends := s.sends ++ [x] } id = sendsOf s id ++ if x.id = id then [x] else [] := by
  rw [sendsOf, sendsOf, List.filter_append, List.filter_singleton]
  by_cases same : x.id = id
  · simp [same]
  · simp [same]

/- Only the open call is sent, and for the first time. -/
theorem Orderly.send (orderly : Orderly s) (status : PacketStatus) (pc : s.runner = .send) :
    Orderly { s with runner := .storeSent status, sends := s.sends ++ [⟨s.owner, s.paramControl, status⟩] } := by
  cases orderly.phase with
  | rest _ _ runner => rw [pc] at runner; cases runner
  | busy c p at_ alone owner query serving =>
    cases serving with
    | asking _ _ runner | finishing _ _ _ runner | posted _ _ runner | leaving _ _ runner => rw [pc] at runner; cases runner
    | storing w _ _ _ runner => rw [pc] at runner; cases runner
    | waiting stage flag sem _ unsent =>
      have other : ∀ id, id ≠ p.id →
          sendsOf { s with runner := .storeSent status, sends := s.sends ++ [⟨s.owner, s.paramControl, status⟩] } id =
            sendsOf s id := by
        intro id different
        rw [sendsOfSend, if_neg (by rw [owner]; exact Ne.symm different), List.append_nil]
      have closedOther : ∀ d, ∀ q ∈ s.threads d, q.stage.isOpen = false → q.id ≠ p.id := by
        intro d q there closed same
        have here : d = c := orderly.numbered.apart d c q there p at_ same
        subst here
        obtain rfl : q = p := Option.some.inj (there.symm.trans at_)
        rw [stage] at closed
        cases closed
      refine ⟨⟨orderly.numbered.within, orderly.numbered.apart, ?_, orderly.numbered.returned, orderly.numbered.gone⟩, ?_, ?_, ?_, ?_⟩
      · intro x among
        rcases List.mem_append.mp among with old | new
        · exact orderly.numbered.sends x old
        · rw [List.mem_singleton.mp new]
          exact owner ▸ orderly.numbered.within c p at_
      · intro a among
        rw [other a.id (Ne.symm (orderly.numbered.gone a among c p at_))]
        exact orderly.returned a among
      · intro d q there atStart
        have apart := closedOther d q there (by rw [atStart]; rfl)
        rw [Unsent, other q.id apart]
        exact orderly.fresh d q there atStart
      · intro d q there atEnd
        have apart := closedOther d q there (by rw [atEnd]; rfl)
        rw [Sent, other q.id apart]
        exact orderly.ended d q there atEnd
      · refine .busy c p at_ alone owner query (.storing status stage flag sem rfl ?_)
        rw [Unsent] at unsent
        rw [Sent, sendsOfSend, if_pos owner, unsent, List.nil_append, owner, query]

theorem Orderly.store (orderly : Orderly s) {w : PacketStatus} (pc : s.runner = .storeSent w)
    (kept : ∀ c, ∀ p ∈ s.threads c, Sent s p s.opResult → s.opResult = w) :
    Orderly { s with opResult := w, runner := .testSent } := by
  refine orderly.runnerTurn kept ?_
  cases orderly.phase with
  | rest _ _ runner => rw [pc] at runner; cases runner
  | busy c p at_ alone owner query serving =>
    refine .busy c p at_ alone owner query ?_
    cases serving with
    | asking _ _ runner | finishing _ _ _ runner | posted _ _ runner | leaving _ _ runner => rw [pc] at runner; cases runner
    | waiting _ _ _ runner =>
      rw [pc] at runner
      rcases runner with runner | runner <;> cases runner
    | storing v stage flag sem runner sent =>
      rw [pc] at runner
      cases runner
      exact .finishing stage flag sem rfl sent Bool.noConfusion

theorem Orderly.post (orderly : Orderly s) (pc : s.runner = .post) :
    Orderly { s with paramSem := s.paramSem + 1, runner := .sync } := by
  refine orderly.runnerTurn (fun _ _ _ _ => rfl) ?_
  cases orderly.phase with
  | rest _ _ runner => rw [pc] at runner; cases runner
  | busy c p at_ alone owner query serving =>
    refine .busy c p at_ alone owner query ?_
    cases serving with
    | asking _ _ runner | posted _ _ runner | leaving _ _ runner | storing _ _ _ _ runner => rw [pc] at runner; cases runner
    | waiting _ _ _ runner =>
      rw [pc] at runner
      rcases runner with runner | runner <;> cases runner
    | finishing stage flag sem _ sent _ => exact .posted (.inl ⟨stage, by rw [sem]⟩) flag rfl sent

theorem Orderly.runner (orderly : Orderly s) {status : PacketStatus} (clear : StepClear s (.runner status)) :
    Orderly (runnerStep s status) := by
  have moves := runnerMoves s status
  generalize runnerStep s status = t at moves ⊢
  cases moves with
  | quiet r pc zone idle stored refreshing => exact orderly.quiet zone idle (keptBy clear stored) refreshing
  | take pc flag => exact orderly.take (clear.1 pc flag) pc flag
  | send pc => exact orderly.send status pc
  | store w pc =>
    have stored : w ∈ s.runner.stores status := by rw [pc]; rfl
    exact orderly.store pc (keptBy clear (.inr stored))
  | post pc => exact orderly.post pc

/-! Turns of the callers. -/

theorem movedThread {q : Option Pending} {d : Caller} {p : Pending} (at_ : p ∈ (s.moved c q).threads d) :
    d = c ∧ p ∈ q ∨ d ≠ c ∧ p ∈ s.threads d := by
  by_cases same : d = c
  · rw [same, movedSelf] at at_
    exact .inl ⟨same, at_⟩
  · rw [movedOther s same] at at_
    exact .inr ⟨same, at_⟩

theorem Serving.moved (serving : Serving s p) {threads : Caller → Option Pending} {started : Nat} {returned : List Send} :
    Serving { s with threads := threads, started := started, returned := returned } p := by
  cases serving with
  | asking stage flag runner unsent => exact .asking stage flag runner unsent
  | waiting stage flag sem runner unsent => exact .waiting stage flag sem runner unsent
  | storing w stage flag sem runner sent => exact .storing w stage flag sem runner sent
  | finishing stage flag sem runner sent succeeded => exact .finishing stage flag sem runner sent succeeded
  | posted stage flag runner sent => exact .posted stage flag runner sent
  | leaving stage flag runner sent => exact .leaving stage flag runner sent

/- A thread that begins or ends a call leaves the open one alone. -/
theorem Phase.moved (phase : Phase s) {q : Option Pending} (was : ∀ p ∈ s.threads c, p.stage.isOpen = false)
    (is_ : ∀ p ∈ q, p.stage.isOpen = false) {started : Nat} {returned : List Send} :
    Phase { s.moved c q with started := started, returned := returned } := by
  have closed : ∀ d, (∀ p ∈ s.threads d, p.stage.isOpen = false) → ∀ p ∈ (s.moved c q).threads d, p.stage.isOpen = false := by
    intro d before p at_
    rcases movedThread at_ with ⟨_, new⟩ | ⟨_, old⟩
    · exact is_ p new
    · exact before p old
  cases phase with
  | rest all flag runner => exact .rest (fun d => closed d (all d)) flag runner
  | busy d p at_ alone owner query serving =>
    have other : d ≠ c := by
      rintro rfl
      exact absurd serving.isOpen (by rw [was p at_]; decide)
    have there : (s.moved c q).threads d = some p := (movedOther s other q).trans at_
    exact .busy d p there (fun e different => closed e (alone e different)) owner query serving.moved

theorem Orderly.call (orderly : Orderly s) (free : s.threads c = none) (query : ParamControlPacket) :
    Orderly { s.moved c (some ⟨s.started + 1, query, .setQuery⟩) with started := s.started + 1 } := by
  have fresh : ∀ x ∈ s.sends, x.id ≠ s.started + 1 := fun x among same => by
    have := orderly.numbered.sends x among
    omega
  refine ⟨⟨?_, ?_, ?_, ?_, ?_⟩, orderly.returned, ?_, ?_, ?_⟩
  · intro d p at_
    rcases movedThread at_ with ⟨_, new⟩ | ⟨_, old⟩
    · cases new
      exact Nat.le_refl _
    · exact Nat.le_succ_of_le (orderly.numbered.within d p old)
  · intro d e p at_ q there same
    rcases movedThread at_ with ⟨rfl, new⟩ | ⟨_, old⟩ <;> rcases movedThread there with ⟨rfl, newer⟩ | ⟨_, older⟩
    · rfl
    · cases new
      have number : s.started + 1 = q.id := same
      have := orderly.numbered.within e q older
      omega
    · cases newer
      have number : p.id = s.started + 1 := same
      have := orderly.numbered.within d p old
      omega
    · exact orderly.numbered.apart d e p old q older same
  · intro x among
    exact Nat.le_succ_of_le (orderly.numbered.sends x among)
  · intro a among
    exact Nat.le_succ_of_le (orderly.numbered.returned a among)
  · intro a among d p at_
    rcases movedThread at_ with ⟨_, new⟩ | ⟨_, old⟩
    · cases new
      intro number
      change s.started + 1 = a.id at number
      have := orderly.numbered.returned a among
      omega
    · exact orderly.numbered.gone a among d p old
  · intro d p at_ stage
    rcases movedThread at_ with ⟨_, new⟩ | ⟨_, old⟩
    · cases new
      exact List.filter_eq_nil_iff.mpr fun x among => by simpa using fresh x among
    · exact orderly.fresh d p old stage
  · intro d p at_ stage
    rcases movedThread at_ with ⟨_, new⟩ | ⟨_, old⟩
    · cases new
      cases stage
    · exact orderly.ended d p old stage
  · refine orderly.phase.moved (fun p at_ => ?_) fun p new => ?_
    · rw [free] at at_
      cases at_
    · cases new
      rfl

theorem Phase.open_ (phase : Phase s) (at_ : s.threads c = some p) (isOpen : p.stage.isOpen = true) :
    (∀ d, d ≠ c → ∀ q ∈ s.threads d, q.stage.isOpen = false) ∧ s.owner = p.id ∧ s.paramControl = p.query ∧ Serving s p := by
  cases phase with
  | rest closed => exact absurd (closed c p at_) (by rw [isOpen]; decide)
  | busy d q there alone owner query serving =>
    by_cases same : d = c
    · subst same
      obtain rfl : q = p := Option.some.inj (there.symm.trans at_)
      exact ⟨alone, owner, query, serving⟩
    · exact absurd (alone c (Ne.symm same) p at_) (by rw [isOpen]; decide)

/- A call goes on to its next access. -/
theorem Orderly.advance (orderly : Orderly s) (at_ : s.threads c = some p) {stage : Stage} {control : ParamControlPacket}
    {owner sem : Nat} {flag : Bool} (begun : stage ≠ .setQuery) (ended : stage = .result → Sent s p s.opResult)
    (phase : Phase { s.moved c (some { p with stage := stage }) with
      paramControl := control, owner := owner, paramSem := sem, paramSemInit := flag }) :
    Orderly { s.moved c (some { p with stage := stage }) with
      paramControl := control, owner := owner, paramSem := sem, paramSemInit := flag } := by
  /- What a thread holds is what it held, but for the stage. -/
  have held : ∀ d, ∀ q ∈ (s.moved c (some { p with stage := stage })).threads d, ∃ r ∈ s.threads d, r.id = q.id := by
    intro d q there
    rcases movedThread there with ⟨rfl, new⟩ | ⟨_, old⟩
    · cases new
      exact ⟨p, at_, rfl⟩
    · exact ⟨q, old, rfl⟩
  refine ⟨⟨?_, ?_, orderly.numbered.sends, orderly.numbered.returned, ?_⟩, orderly.returned, ?_, ?_, phase⟩
  · intro d q there
    obtain ⟨r, was, same⟩ := held d q there
    rw [← same]
    exact orderly.numbered.within d r was
  · intro d e q there q' there' same
    obtain ⟨r, was, id⟩ := held d q there
    obtain ⟨r', was', id'⟩ := held e q' there'
    exact orderly.numbered.apart d e r was r' was' (id.trans (same.trans id'.symm))
  · intro a among d q there
    obtain ⟨r, was, same⟩ := held d q there
    rw [← same]
    exact orderly.numbered.gone a among d r was
  · intro d q there atStart
    rcases movedThread there with ⟨_, new⟩ | ⟨_, old⟩
    · cases new
      exact absurd atStart begun
    · exact orderly.fresh d q old atStart
  · intro d q there atEnd
    rcases movedThread there with ⟨_, new⟩ | ⟨_, old⟩
    · cases new
      exact ended atEnd
    · exact orderly.ended d q old atEnd

/- The open call after one of its own accesses. -/
theorem busyNext {stage : Stage} {control : ParamControlPacket} {owner sem : Nat} {flag : Bool}
    (alone : ∀ d, d ≠ c → ∀ q ∈ s.threads d, q.stage.isOpen = false) (own : owner = p.id) (query : control = p.query)
    (serving : Serving { s.moved c (some { p with stage := stage }) with
      paramControl := control, owner := owner, paramSem := sem, paramSemInit := flag } { p with stage := stage }) :
    Phase { s.moved c (some { p with stage := stage }) with
      paramControl := control, owner := owner, paramSem := sem, paramSemInit := flag } := by
  refine .busy c { p with stage := stage } (movedSelf s c _) (fun d other q there => ?_) own query serving
  rcases movedThread there with ⟨same, _⟩ | ⟨_, old⟩
  · exact absurd same other
  · exact alone d other q old

theorem Orderly.setQuery (orderly : Orderly s) (at_ : s.threads c = some p) (stage : p.stage = .setQuery)
    (alone : ∀ d, d ≠ c → ∀ q ∈ s.threads d, q.stage.isOpen = false) :
    Orderly { s.moved c (some { p with stage := .initSem }) with paramControl := p.query, owner := p.id } := by
  refine orderly.advance at_ Stage.noConfusion Stage.noConfusion (busyNext alone rfl rfl ?_)
  cases orderly.phase with
  | rest closed flag runner => exact .asking (.inl rfl) flag runner (orderly.fresh c p at_ stage)
  | busy d q there _ _ _ serving =>
    have open_ := serving.isOpen
    by_cases same : d = c
    · subst same
      obtain rfl : q = p := Option.some.inj (there.symm.trans at_)
      rw [stage] at open_
      cases open_
    · rw [alone d same q there] at open_
      cases open_

theorem Orderly.initSem (orderly : Orderly s) (at_ : s.threads c = some p) (stage : p.stage = .initSem) :
    Orderly { s.moved c (some { p with stage := .setFlag }) with paramSem := 0 } := by
  obtain ⟨alone, owner, query, serving⟩ := orderly.phase.open_ at_ (by rw [stage]; rfl)
  refine orderly.advance at_ Stage.noConfusion Stage.noConfusion (busyNext alone owner query ?_)
  cases serving with
  | asking _ flag runner unsent => exact .asking (.inr ⟨rfl, rfl⟩) flag runner unsent
  | posted other => rw [stage] at other; simp at other
  | waiting other | storing _ other | finishing other | leaving other => rw [stage] at other; cases other

theorem Orderly.setFlag (orderly : Orderly s) (at_ : s.threads c = some p) (stage : p.stage = .setFlag) :
    Orderly { s.moved c (some { p with stage := .waitSem }) with paramSemInit := true } := by
  obtain ⟨alone, owner, query, serving⟩ := orderly.phase.open_ at_ (by rw [stage]; rfl)
  refine orderly.advance at_ Stage.noConfusion Stage.noConfusion (busyNext alone owner query ?_)
  cases serving with
  | asking asked flag runner unsent =>
    rw [stage] at asked
    rcases asked with other | ⟨_, sem⟩
    · cases other
    · exact .waiting rfl rfl sem (.inl runner) unsent
  | posted other => rw [stage] at other; simp at other
  | waiting other | storing _ other | finishing other | leaving other => rw [stage] at other; cases other

theorem Orderly.waitSem (orderly : Orderly s) (at_ : s.threads c = some p) (stage : p.stage = .waitSem)
    (some_ : 0 < s.paramSem) :
    Orderly { s.moved c (some { p with stage := .clearFlag }) with paramSem := s.paramSem - 1 } := by
  obtain ⟨alone, owner, query, serving⟩ := orderly.phase.open_ at_ (by rw [stage]; rfl)
  refine orderly.advance at_ Stage.noConfusion Stage.noConfusion (busyNext alone owner query ?_)
  cases serving with
  | posted _ flag runner sent => exact .posted (.inr rfl) flag runner sent
  | asking other => rw [stage] at other; simp at other
  | leaving other => rw [stage] at other; cases other
  | waiting _ _ sem | storing _ _ _ sem | finishing _ _ sem => omega

theorem Orderly.clearFlag (orderly : Orderly s) (at_ : s.threads c = some p) (stage : p.stage = .clearFlag) :
    Orderly { s.moved c (some { p with stage := .destroySem }) with paramSemInit := false } := by
  obtain ⟨alone, owner, query, serving⟩ := orderly.phase.open_ at_ (by rw [stage]; rfl)
  refine orderly.advance at_ Stage.noConfusion Stage.noConfusion (busyNext alone owner query ?_)
  cases serving with
  | posted _ _ runner sent => exact .leaving rfl rfl runner sent
  | asking other => rw [stage] at other; simp at other
  | waiting other | storing _ other | finishing other | leaving other => rw [stage] at other; cases other

theorem Orderly.destroySem (orderly : Orderly s) (at_ : s.threads c = some p) (stage : p.stage = .destroySem) :
    Orderly (s.moved c (some { p with stage := .result })) := by
  obtain ⟨alone, owner, query, serving⟩ := orderly.phase.open_ at_ (by rw [stage]; rfl)
  cases serving with
  | leaving _ flag runner sent =>
    refine orderly.advance at_ Stage.noConfusion (fun _ => sent) (.rest (fun d q there => ?_) flag runner)
    rcases movedThread there with ⟨_, new⟩ | ⟨other, old⟩
    · cases new
      rfl
    · exact alone d other q old
  | posted other | asking other => rw [stage] at other; simp at other
  | waiting other | storing _ other | finishing other => rw [stage] at other; cases other

theorem Orderly.result (orderly : Orderly s) (at_ : s.threads c = some p) (stage : p.stage = .result) :
    Orderly { s.moved c none with returned := s.returned ++ [⟨p.id, p.query, s.opResult⟩] } := by
  have held : ∀ d, ∀ q ∈ (s.moved c none).threads d, d ≠ c ∧ q ∈ s.threads d := by
    intro d q there
    rcases movedThread there with ⟨_, new⟩ | old
    · cases new
    · exact old
  refine ⟨⟨?_, ?_, orderly.numbered.sends, ?_, ?_⟩, ?_, ?_, ?_, ?_⟩
  · exact fun d q there => orderly.numbered.within d q (held d q there).2
  · exact fun d e q there q' there' => orderly.numbered.apart d e q (held d q there).2 q' (held e q' there').2
  · intro a among
    rcases List.mem_append.mp among with old | new
    · exact orderly.numbered.returned a old
    · rw [List.mem_singleton.mp new]
      exact orderly.numbered.within c p at_
  · intro a among d q there
    rcases List.mem_append.mp among with old | new
    · exact orderly.numbered.gone a old d q (held d q there).2
    · rw [List.mem_singleton.mp new]
      exact fun same => (held d q there).1 (orderly.numbered.apart d c q (held d q there).2 p at_ same)
  · intro a among
    rcases List.mem_append.mp among with old | new
    · exact orderly.returned a old
    · rw [List.mem_singleton.mp new]
      exact orderly.ended c p at_ stage
  · exact fun d q there => orderly.fresh d q (held d q there).2
  · exact fun d q there => orderly.ended d q (held d q there).2
  · refine orderly.phase.moved (fun q there => ?_) fun q new => ?_
    · obtain rfl : p = q := Option.some.inj (at_.symm.trans there)
      rw [stage]
      rfl
    · cases new

theorem Orderly.caller (orderly : Orderly s) (clear : StepClear s (.caller c)) : Orderly (callerStep s c) := by
  unfold callerStep
  cases at_ : s.threads c with
  | none => exact orderly
  | some p =>
    dsimp only
    cases stage : p.stage with
    | setQuery => exact orderly.setQuery at_ stage (clear ⟨p, at_, stage⟩)
    | initSem => exact orderly.initSem at_ stage
    | setFlag => exact orderly.setFlag at_ stage
    | waitSem =>
      dsimp only
      split
      next some_ => exact orderly.waitSem at_ stage some_
      · exact orderly
    | clearFlag => exact orderly.clearFlag at_ stage
    | destroySem => exact orderly.destroySem at_ stage
    | result => exact orderly.result at_ stage

theorem Orderly.callTurn (orderly : Orderly s) (cmd : Command) (varName : Text) : Orderly (callStep s c cmd varName) := by
  unfold callStep
  split
  next query free _ => exact orderly.call free query
  · exact orderly

/-! Runs. -/

theorem orderlyStep (orderly : Orderly s) {e : Event} (clear : StepClear s e) : Orderly (step s e) := by
  cases e with
  | runner status => exact orderly.runner clear
  | call c cmd varName => exact orderly.callTurn cmd varName
  | caller c => exact orderly.caller clear

theorem orderlyInitial (opResult : PacketStatus) : Orderly (initial opResult) where
  numbered := ⟨by simp [initial], by simp [initial], by simp [initial], by simp [initial], by simp [initial]⟩
  returned := by simp [initial]
  fresh := by simp [initial]
  ended := by simp [initial]
  phase := .rest (by simp [initial]) rfl rfl

theorem orderlyRun {events : List Event} : ∀ {s : State}, Orderly s → RunClear s events → Orderly (steps s events) := by
  induction events with
  | nil => exact fun orderly _ => orderly
  | cons e rest ih => exact fun orderly clear => ih (orderlyStep orderly clear.1) clear.2

end OrazioLogger.ParamCommands
