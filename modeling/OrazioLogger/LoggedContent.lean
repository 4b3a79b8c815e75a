import OrazioLogger.LoggerQueue

/-! What a line says against what was formatted for it. The queue refers to the
buffers of the main loop, so it takes a writer that is not an iteration behind. -/
namespace OrazioLogger.Logger

def WriterPc.hand : WriterPc → List GenData
  | .postCritical d | .print d => d.toList
  | _ => []

/- Records whose text has still to be read from their buffer. -/
def unwritten (s : State) : List GenData := s.writer.hand ++ s.shared.queue

/- The buffer the main loop formats into in this turn. -/
def target (numJoints : Nat) (s : State) : Event → Option Cell
  | .main _ =>
    match s.main with
    | .print .joint i _ => if i < numJoints then some .jointBuffer else none
    | .print p _ _ => some p.cell
    | _ => none
  | _ => none

namespace Content

def StepClear (numJoints : Nat) (s : State) (e : Event) : Prop :=
  ∀ c ∈ target numJoints s e, ∀ d ∈ unwritten s, d.data ≠ c
instance (numJoints s e) : Decidable (StepClear numJoints s e) := by unfold StepClear; infer_instance

def RunClear (numJoints : Nat) : State → List Event → Prop := EachTurn numJoints (StepClear numJoints)
instance (numJoints s events) : Decidable (RunClear numJoints s events) := by unfold RunClear; infer_instance

end Content

/- Every line carries the text formatted in the iteration of its timestamp. -/
def Faithful (s : State) : Prop :=
  ∀ line ∈ s.output, line.type ≠ .image → s.formatted (line.type, line.ts) = some line.text
instance (s) : Decidable (Faithful s) := by unfold Faithful; infer_instance

/- How far the calls of the current iteration have got. -/
def MainPc.called : MainPc → Nat
  | .print p _ _ | .call p => p.position
  | .add p _ => p.position + 1
  | .increment => 4
  | _ => 0

def live (s : State) : List GenData := unwritten s ++ (s.main.pending.map Prod.snd).toList

structure Kept (s : State) : Prop where
  lines : Faithful s
  records : ∀ d ∈ live s, d.type ≠ .image → s.formatted d.key = some (s.cells d.data) ∧ ∃ p, d.data = Packet.cell p
  fresh : ∀ p t, s.formatted (Packet.type p, t) ≠ none → t < s.timestamp ∨ (t = s.timestamp ∧ p.position < s.main.called)

theorem Kept.keep {s t : State} (kept : Kept s) (output : t.output = s.output) (formatted : t.formatted = s.formatted)
    (records : ∀ d ∈ live t, d.type ≠ .image → d ∈ live s ∧ t.cells d.data = s.cells d.data)
    (timestamp : t.timestamp = s.timestamp) (called : s.main.called ≤ t.main.called) : Kept t where
  lines := by
    unfold Faithful
    rw [output, formatted]
    exact kept.lines
  records d member packet := by
    obtain ⟨before, same⟩ := records d member packet
    rw [formatted, same]
    exact kept.records d before packet
  fresh p time known := by
    rw [formatted] at known
    rw [timestamp]
    exact (kept.fresh p time known).imp id fun ⟨same, before⟩ => ⟨same, by omega⟩

theorem awayCalled {pc : MainPc} (away : pc.Joining ∨ pc.Leaving) : pc.called = 0 := by
  cases pc <;> simp_all [MainPc.Joining, MainPc.Leaving, MainPc.called]

/- Adding a record moves it on, and makes no other. -/
theorem addPacketLive (sh : Shared) (pc : AddPacket) :
    ∀ d ∈ (addPacketStep sh pc).1.queue ++ (addPacketStep sh pc).2.pending.toList, d ∈ sh.queue ++ pc.pending.toList := by
  cases pc with
  | waitCritical new => by_cases free : 0 < sh.critical <;> simp [addPacketStep, free, AddPacket.pending]
  | _ => simp [addPacketStep, AddPacket.pending]

theorem nextCalled (p : Packet) : p.next.called = p.position + 1 := by cases p <;> rfl

/- Formatting leaves every buffer alone that is still to be read. -/
theorem formattingKept {numJoints : Nat} {s : State} {e : Event} {c : Cell} (clear : Content.StepClear numJoints s e)
    (kept : Kept s) (target : target numJoints s e = some c) (pending : s.main.pending = none) (text : Text) {pc : MainPc}
    (idle : pc.pending = none) (called : s.main.called ≤ pc.called) : Kept { setCell s c text with main := pc } := by
  refine kept.keep rfl rfl (fun d member _ => ?_) rfl called
  have same : live s = unwritten s := by simp [live, pending]
  have here : d ∈ unwritten s := by simpa [live, unwritten, idle, setCell] using member
  exact ⟨same ▸ here, Function.update_of_ne (clear c target d here) _ _⟩

theorem moveKept {numJoints : Nat} {s t : State} {e : Event} (inOrder : InOrder s) (clear : Content.StepClear numJoints s e)
    (kept : Kept s) (move : Move numJoints s e t) : Kept t := by
  cases move with
  | @print text p i pos pc single =>
    have target : target numJoints s (.main text) = some p.cell := by
      cases p <;> simp_all [Logger.target]
    exact formattingKept clear kept target (by rw [pc]; rfl) text rfl (by rw [pc]; exact Nat.le_refl _)
  | printJoint pc more =>
    exact formattingKept clear kept (by simp [Logger.target, pc, more]) (by rw [pc]; rfl) _ rfl (by rw [pc]; exact Nat.le_refl _)
  | @call text p pc =>
    have other (key : Key) (known : s.formatted key ≠ none) : key ≠ (p.type, s.timestamp) := by
      rintro rfl
      rcases kept.fresh p s.timestamp known with earlier | ⟨-, before⟩
      · omega
      · simp [pc, MainPc.called] at before
    refine ⟨fun line member packet => ?_, fun d member packet => ?_, fun q time known => ?_⟩
    · have before := kept.lines line member packet
      exact (Function.update_of_ne (other _ (by simp [before])) _ _).trans before
    · have here : d ∈ unwritten s ∨ d = ⟨p.type, s.timestamp, p.cell⟩ := by
        simpa [live, unwritten, MainPc.pending, AddPacket.pending, or_assoc] using member
      rcases here with old | rfl
      · obtain ⟨before, cell⟩ := kept.records d (by simp [live, old]) packet
        exact ⟨(Function.update_of_ne (other _ (by simp [before])) _ _).trans before, cell⟩
      · exact ⟨Function.update_self _ _ _, p, rfl⟩
    · by_cases same : (q.type, time) = (p.type, s.timestamp)
      · obtain ⟨type, rfl⟩ := Prod.mk.inj same
        obtain rfl : q = p := by cases q <;> cases p <;> first | rfl | cases type
        exact Or.inr ⟨rfl, Nat.lt_succ_self _⟩
      · have before : s.formatted (q.type, time) ≠ none := fun none =>
          known ((Function.update_of_ne same _ _).trans none)
        rcases kept.fresh q time before with earlier | ⟨now, before⟩
        · exact Or.inl earlier
        · refine Or.inr ⟨now, ?_⟩
          simp only [pc, MainPc.called] at before ⊢
          omega
  | @add text p pc at_ busy =>
    refine kept.keep rfl rfl (fun d member _ => ⟨?_, rfl⟩) rfl (by rw [at_]; exact Nat.le_refl _)
    have moved := addPacketLive s.shared pc d
    simp only [live, unwritten, at_, MainPc.pending, List.mem_append, Option.map_map, Function.comp_def, Option.map_id'] at moved member ⊢
    tauto
  | @returned text p pc =>
    refine kept.keep rfl rfl (fun d member _ => ⟨?_, rfl⟩) rfl (by rw [pc, nextCalled]; exact Nat.le_refl _)
    have before : s.main.pending = none := by rw [pc]; rfl
    simpa [live, unwritten, before, nextPending] using member
  | increment pc =>
    refine ⟨kept.lines, fun d member packet => ?_, fun p time known => ?_⟩
    · refine kept.records d ?_ packet
      simpa [live, unwritten, pc, MainPc.pending] using member
    · rcases kept.fresh p time known with earlier | ⟨now, -⟩
      · exact Or.inl (Nat.lt_succ_of_lt earlier)
      · exact Or.inl (by simp [now])
  | @join text pc before after =>
    refine kept.keep rfl rfl (fun d member _ => ⟨?_, rfl⟩) rfl (by rw [awayCalled (Or.inl before)]; exact Nat.zero_le _)
    simpa [live, unwritten, (awayEntered (Or.inl before)).2, (awayEntered (Or.inr after)).2] using member
  | name pc =>
    refine kept.keep rfl rfl (fun d member packet => ⟨member, Function.update_of_ne ?_ _ _⟩) rfl (Nat.le_refl _)
    obtain ⟨-, p, cell⟩ := kept.records d member packet
    rw [cell]
    cases p <;> decide
  | @cameraAdd pc at_ busy =>
    refine kept.keep rfl rfl (fun d member packet => ⟨?_, rfl⟩) rfl (Nat.le_refl _)
    have moved := addPacketLive s.shared pc d
    have image (mine : d ∈ pc.pending) : d.type = .image := (inOrder.camera d (by rw [at_]; exact mine)).1
    simp only [live, unwritten, List.mem_append, Option.mem_toList] at moved member ⊢
    tauto
  | dequeue pc =>
    refine kept.keep rfl rfl (fun d member _ => ⟨?_, rfl⟩) rfl (Nat.le_refl _)
    cases queue : s.shared.queue <;> simpa [live, unwritten, WriterPc.hand, pc, queue] using member
  | @write d pc =>
    have member : d ∈ live s := by simp [live, unwritten, WriterPc.hand, pc]
    refine ⟨fun line new packet => ?_, fun e here packet => ?_, kept.fresh⟩
    · rcases List.mem_append.mp new with old | last
      · exact kept.lines line old packet
      · obtain rfl := List.mem_singleton.mp last
        exact (kept.records d member packet).1
    · refine kept.records e ?_ packet
      simp only [live, unwritten, WriterPc.hand, pc, List.mem_append] at here ⊢
      tauto
  | _ =>
    refine kept.keep rfl rfl ?_ rfl ?_ <;>
      simp_all [live, unwritten, WriterPc.hand, MainPc.pending, MainPc.called]

theorem initialKept (cells : Cell → Text) : Kept (initial cells) :=
  ⟨by simp [Faithful, initial], by simp [live, unwritten, initial, WriterPc.hand, MainPc.pending], by simp [initial]⟩

theorem runKept {numJoints : Nat} {s : State} (inOrder : InOrder s) (kept : Kept s) (events : List Event)
    (clear : Content.RunClear numJoints s events) : Kept (run numJoints s events) := by
  induction events generalizing s with
  | nil => exact kept
  | cons e rest ih =>
    obtain ⟨now, later⟩ := clear
    have inOrderNext : InOrder (step numJoints s e) := stepKeeps inOrder (moveInOrder inOrder)
    have keptNext : Kept (step numJoints s e) := stepKeeps kept (moveKept inOrder now kept)
    exact ih inOrderNext keptNext later

theorem clearRunsFaithful (numJoints : Nat) (cells : Cell → Text) (events : List Event)
    (clear : Content.RunClear numJoints (initial cells) events) : Faithful (run numJoints (initial cells) events) :=
  (runKept (reachableInOrder (show Reachable numJoints (initial cells) from .initial cells)) (initialKept cells) events clear).lines

def promptWriter : List Event := List.replicate 9 (.main ['a']) ++ List.replicate 6 .writer

theorem promptWriterFaithful : Faithful (run 1 (initial fun _ => []) promptWriter) :=
  clearRunsFaithful 1 (fun _ => []) promptWriter (by decide +kernel)

/- The main loop has formatted its second SYSTEM packet when the writer gets to
the first: the line of timestamp 0 carries the text of timestamp 1. -/
theorem laggingWriterUnfaithful :
    let s := run 1 (initial fun _ => [])
      (List.replicate 36 (.main ['a']) ++ .main ['b'] :: List.replicate 6 .writer)
    s.output = [⟨.systemPacket, 0, ['b']⟩] ∧ s.formatted (.systemPacket, 0) = some ['a'] ∧ ¬ Faithful s := by
  decide

end OrazioLogger.Logger
