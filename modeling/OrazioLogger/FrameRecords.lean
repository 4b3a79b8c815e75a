import OrazioLogger.LoggedContent
import Mathlib.Data.List.Nodup

/-! The FRAME records and the files they name: the camera reads the timestamp once for the record and once for
the name, and nothing makes the main loop increment it between two frames. The name stays in `nomefile`, which
the next frame takes over. -/
namespace OrazioLogger.Logger

variable {numJoints : Nat} {s t : State} {e : Event}

/- The timestamp and the name in the record a turn enqueues. -/
def frameRecord (s : State) : Event → Option (Nat × Text)
  | .camera =>
    match s.camera with
    | .add (.enqueue new) => some (new.ts, s.cells new.data)
    | _ => none
  | _ => none

def frameRecords (numJoints : Nat) : State → List Event → List (Nat × Text)
  | _, [] => []
  | s, e :: rest => (frameRecord s e).toList ++ frameRecords numJoints (step numJoints s e) rest

/- The records whose name has still to be read. -/
def imageRecords (s : State) : List GenData := (unwritten s).filter fun d => d.type = .image

/- What the records enqueued so far carry: those written what their line says, the others what `nomefile` holds by now. -/
def carried (s : State) : List (Nat × Text) :=
  ((s.output.filter fun l => l.type = .image).map fun l => (l.ts, l.text)) ++
    (imageRecords s).map fun d => (d.ts, s.cells d.data)

/- Every record has the number of its file, and no two have one file. -/
def Identified (records : List (Nat × Text)) : Prop :=
  (∀ r ∈ records, r.2 = imageName r.1) ∧ (records.map Prod.snd).Nodup

def CameraPc.naming : CameraPc → Bool
  | .name _ => true
  | _ => false

/- The record the camera thread has named the file of and not enqueued yet. -/
def CameraPc.named : CameraPc → Option GenData
  | .save ts => some ⟨.image, ts, .nomefile⟩
  | .add pc => pc.pending
  | _ => none

namespace Frames

/- The timestamp is not incremented between the two readings, and has been since the last record, which
has been written by then. -/
def StepClear (s : State) : Event → Prop
  | .main _ => s.main = .increment → s.camera.naming = false
  | .camera => s.camera.naming = true →
    (∀ d ∈ s.shared.entered, d.type = .image → d.ts ≠ s.timestamp) ∧ imageRecords s = []
  | _ => True

instance (s e) : Decidable (StepClear s e) := by
  cases e <;> unfold StepClear <;> infer_instance

def RunClear (numJoints : Nat) : State → List Event → Prop := EachTurn numJoints StepClear

instance (numJoints s events) : Decidable (RunClear numJoints s events) := by unfold RunClear; infer_instance

end Frames

theorem imageNameInjective {m n : Nat} (same : imageName m = imageName n) : m = n := by
  have digits : Nat.toDigits 10 m = Nat.toDigits 10 n := by
    simpa [imageName, String.toList_append] using same
  rw [← Nat.ofDigitChars_ten_toDigits (n := m), digits, Nat.ofDigitChars_ten_toDigits]

/- The records so far, with the one that is being added. -/
structure Naming (s : State) (records : List (Nat × Text)) : Prop where
  reading : s.camera.naming = false ∨ s.camera = .name s.timestamp
  named : ∀ new ∈ s.camera.named, new.type = .image ∧ new.data = .nomefile ∧ s.cells .nomefile = imageName new.ts ∧
    new.ts ∉ records.map Prod.fst
  adding : ∀ new, s.camera = .add (.enqueue new) → new ∈ s.shared.entered
  entered : ∀ r ∈ records, ∃ d ∈ s.shared.entered, d.type = .image ∧ d.ts = r.1
  identified : ∀ r ∈ records, r.2 = imageName r.1
  once : (records.map Prod.fst).Nodup

/- What the turns of the other threads leave to the camera. -/
structure Aside (s t : State) : Prop where
  camera : t.camera = s.camera
  nomefile : t.cells .nomefile = s.cells .nomefile
  entered : ∀ d ∈ s.shared.entered, d ∈ t.shared.entered
  timestamp : t.timestamp = s.timestamp ∨ s.camera.naming = false

theorem addPacketEntered (sh : Shared) (pc : AddPacket) : ∀ d ∈ sh.entered, d ∈ (addPacketStep sh pc).1.entered := by
  intro d among
  cases pc with
  | waitCritical new =>
    by_cases free : 0 < sh.critical
    · simp [addPacketStep, free, among]
    · simpa [addPacketStep, free] using among
  | _ => exact among

theorem moveAside (move : Move numJoints s e t) (other : e ≠ .camera) (clear : Frames.StepClear s e) : Aside s t := by
  have kept : ∀ {t : State}, t.camera = s.camera → t.cells .nomefile = s.cells .nomefile → t.shared.entered = s.shared.entered →
      t.timestamp = s.timestamp → Aside s t :=
    fun camera nomefile entered timestamp => ⟨camera, nomefile, fun d among => entered ▸ among, .inl timestamp⟩
  cases move with
  | @print text p i pos =>
    have apart : Cell.nomefile ≠ p.cell := by cases p <;> decide
    exact kept rfl (Function.update_of_ne apart _ _) rfl rfl
  | @printJoint text i pos =>
    have apart : Cell.nomefile ≠ .jointBuffer := by decide
    exact kept rfl (Function.update_of_ne apart ((s.cells .jointBuffer).take pos ++ text) _) rfl rfl
  | add main busy => exact ⟨rfl, rfl, addPacketEntered s.shared _, .inl rfl⟩
  | increment pc => exact ⟨rfl, rfl, fun d among => among, .inr (clear pc)⟩
  | _ => first | exact kept rfl rfl rfl rfl | exact absurd rfl other

theorem Naming.aside {records : List (Nat × Text)} (naming : Naming s records) (aside : Aside s t) : Naming t records := by
  refine ⟨?_, fun new named => ?_, fun new pc => ?_, fun r among => ?_, naming.identified, naming.once⟩
  · rw [aside.camera]
    rcases aside.timestamp with same | elsewhere
    · rw [same]
      exact naming.reading
    · exact .inl elsewhere
  · rw [aside.camera] at named
    rw [aside.nomefile]
    exact naming.named new named
  · rw [aside.camera] at pc
    exact aside.entered new (naming.adding new pc)
  · obtain ⟨d, entered, image⟩ := naming.entered r among
    exact ⟨d, aside.entered d entered, image⟩

theorem frameRecordNone (other : e ≠ .camera) : frameRecord s e = none := by
  cases e <;> first | rfl | exact absurd rfl other

/- The camera thread moves to where it neither names nor adds a file. -/
theorem Naming.idle {records : List (Nat × Text)} (naming : Naming s records) {pc : CameraPc}
    (reading : pc.naming = false ∨ pc = .name s.timestamp) (named : pc.named = none) (camera : t.camera = pc)
    (timestamp : t.timestamp = s.timestamp) (entered : t.shared.entered = s.shared.entered) : Naming t records := by
  refine ⟨?_, fun new holds => ?_, fun new adds => ?_, fun r among => ?_, naming.identified, naming.once⟩
  · rw [camera, timestamp]
    exact reading
  · rw [camera, named] at holds
    cases holds
  · rw [← camera, adds] at named
    cases named
  · rw [entered]
    exact naming.entered r among

/- The file is named after a timestamp no record has. -/
theorem Naming.name {records : List (Nat × Text)} (naming : Naming s records) (clear : Frames.StepClear s .camera) {ts : Nat}
    (pc : s.camera = .name ts) :
    Naming { setCell s .nomefile (imageName s.timestamp) with camera := .save ts } records := by
  have atName : s.camera.naming = true := by rw [pc]; rfl
  have same : ts = s.timestamp := by
    rcases naming.reading with elsewhere | own
    · rw [atName] at elsewhere
      cases elsewhere
    · rw [pc] at own
      cases own
      rfl
  refine ⟨.inl rfl, fun new holds => ?_, fun new adds => (by cases adds), naming.entered,
    naming.identified, naming.once⟩
  cases Option.mem_some_iff.mp holds
  refine ⟨rfl, rfl, ?_, fun used => ?_⟩
  · exact (Function.update_self Cell.nomefile (imageName s.timestamp) s.cells).trans (congrArg imageName same.symm)
  · obtain ⟨r, among, number⟩ := List.mem_map.mp used
    obtain ⟨d, entered, image, own⟩ := naming.entered r among
    exact (clear atName).1 d entered image (own.trans (number.trans same))

/- Waiting for `critical`, the record is the camera's; past it, also the queue's. -/
theorem Naming.wait {records : List (Nat × Text)} (naming : Naming s records) {new : GenData}
    (pc : s.camera = .add (.waitCritical new)) : Naming { s with
      shared := (addPacketStep s.shared (.waitCritical new)).1
      camera := .add (addPacketStep s.shared (.waitCritical new)).2 } records := by
  have holds := naming.named new (by rw [pc]; rfl)
  refine ⟨.inl rfl, fun other own => ?_, fun other adds => ?_, fun r among => ?_, naming.identified,
    naming.once⟩
  · by_cases free : 0 < s.shared.critical
    · simp only [addPacketStep, if_pos free, CameraPc.named, AddPacket.pending, Option.mem_some_iff] at own
      cases own
      exact holds
    · simp only [addPacketStep, if_neg free, CameraPc.named, AddPacket.pending, Option.mem_some_iff] at own
      cases own
      exact holds
  · by_cases free : 0 < s.shared.critical
    · simp only [addPacketStep, if_pos free] at adds ⊢
      cases adds
      exact List.mem_append_right _ (List.mem_singleton_self new)
    · simp only [addPacketStep, if_neg free] at adds
      cases adds
  · obtain ⟨d, entered, image⟩ := naming.entered r among
    exact ⟨d, addPacketEntered s.shared _ d entered, image⟩

theorem Naming.enqueue {records : List (Nat × Text)} (naming : Naming s records) {new : GenData}
    (pc : s.camera = .add (.enqueue new)) : Naming { s with
      shared := { s.shared with queue := s.shared.queue ++ [new] }
      camera := .add .postEmpty } (records ++ [(new.ts, s.cells new.data)]) := by
  obtain ⟨image, cell, name, fresh⟩ := naming.named new (by rw [pc]; rfl)
  have own : s.cells new.data = imageName new.ts := by rw [cell, name]
  refine ⟨.inl rfl, fun other holds => (by cases holds), fun other adds => (by cases adds), fun r among => ?_,
    fun r among => ?_, ?_⟩
  · rcases List.mem_append.mp among with before | last
    · exact naming.entered r before
    · cases List.mem_singleton.mp last
      exact ⟨new, naming.adding new pc, image, rfl⟩
  · rcases List.mem_append.mp among with before | last
    · exact naming.identified r before
    · cases List.mem_singleton.mp last
      exact own
  · rw [List.map_append]
    refine List.nodup_append.mpr ⟨naming.once, List.pairwise_singleton .., fun used among last only => ?_⟩
    cases List.mem_singleton.mp only
    rintro rfl
    exact fresh among

theorem Naming.camera {records : List (Nat × Text)} (naming : Naming s records) (clear : Frames.StepClear s .camera) :
    Naming (cameraStep s) (records ++ (frameRecord s .camera).toList) := by
  have onward (later : CameraPc) (reading : later.naming = false ∨ later = .name s.timestamp) (named : later.named = none) :
      Naming { s with camera := later } records := naming.idle reading named rfl rfl rfl
  cases pc : s.camera with
  | add stage =>
    cases stage with
    | enqueue new =>
      simp only [cameraStep, frameRecord, addPacketStep, pc]
      exact naming.enqueue pc
    | waitCritical new => simpa only [cameraStep, frameRecord, pc, Option.toList_none, List.append_nil] using naming.wait pc
    | returned =>
      simp only [cameraStep, frameRecord, pc, Option.toList_none, List.append_nil]
      exact onward .sleep (.inl rfl) rfl
    | _ =>
      simp only [cameraStep, frameRecord, addPacketStep, pc, Option.toList_none, List.append_nil]
      exact naming.idle (.inl rfl) rfl rfl rfl rfl
  | name ts => simpa only [cameraStep, frameRecord, pc, Option.toList_none, List.append_nil] using naming.name clear pc
  | save ts =>
    simp only [cameraStep, frameRecord, pc, Option.toList_none, List.append_nil]
    have named := naming.named
    rw [pc] at named
    exact ⟨.inl rfl, named, fun new adds => (by cases adds), naming.entered, naming.identified, naming.once⟩
  | finished =>
    simp only [cameraStep, frameRecord, pc, Option.toList_none, List.append_nil]
    exact naming
  | loopTest =>
    simp only [cameraStep, frameRecord, pc, Option.toList_none, List.append_nil]
    split
    · exact onward .finished (.inl rfl) rfl
    · exact onward .frame (.inl rfl) rfl
  | readTimestamp =>
    simp only [cameraStep, frameRecord, pc, Option.toList_none, List.append_nil]
    exact onward (.name s.timestamp) (.inr rfl) rfl
  | starting =>
    simp only [cameraStep, frameRecord, pc, Option.toList_none, List.append_nil]
    exact onward .loopTest (.inl rfl) rfl
  | frame =>
    simp only [cameraStep, frameRecord, pc, Option.toList_none, List.append_nil]
    exact onward .readTimestamp (.inl rfl) rfl
  | sleep =>
    simp only [cameraStep, frameRecord, pc, Option.toList_none, List.append_nil]
    exact onward .loopTest (.inl rfl) rfl

theorem Naming.step {records : List (Nat × Text)} (naming : Naming s records) (clear : Frames.StepClear s e) :
    Naming (step numJoints s e) (records ++ (frameRecord s e).toList) := by
  by_cases camera : e = .camera
  · subst e
    exact naming.camera clear
  · rw [frameRecordNone camera, Option.toList_none, List.append_nil]
    rcases stepMove numJoints s e with same | move
    · rwa [same]
    · exact naming.aside (moveAside move camera clear)

theorem initialNaming (cells : Cell → Text) : Naming (initial cells) [] :=
  ⟨.inl rfl, fun new holds => (by cases holds), fun new adds => (by cases adds), fun r among => (by cases among),
    fun r among => (by cases among), List.nodup_nil⟩

theorem runNaming {records : List (Nat × Text)} (naming : Naming s records) (events : List Event)
    (clear : Frames.RunClear numJoints s events) :
    Naming (run numJoints s events) (records ++ frameRecords numJoints s events) := by
  induction events generalizing s records with
  | nil => rwa [frameRecords, List.append_nil]
  | cons e rest ih =>
    have later := ih (naming.step clear.1) clear.2
    rwa [List.append_assoc] at later

theorem Naming.identifies {records : List (Nat × Text)} (naming : Naming s records) : Identified records := by
  refine ⟨naming.identified, ?_⟩
  have names : records.map Prod.snd = (records.map Prod.fst).map imageName := by
    rw [List.map_map]
    exact List.map_congr_left naming.identified
  rw [names]
  exact List.Nodup.map (fun _ _ same => imageNameInjective same) naming.once

/-! What a record carries when it is written. -/

/- It is what it carried when it was enqueued. -/
structure Carrying (s : State) (records : List (Nat × Text)) : Prop where
  carried : carried s = records
  cell : ∀ d ∈ imageRecords s, d.data = .nomefile

theorem Carrying.keep {records : List (Nat × Text)} (carrying : Carrying s records) (output : t.output = s.output)
    (left : imageRecords t = imageRecords s) (name : imageRecords s = [] ∨ t.cells .nomefile = s.cells .nomefile) :
    Carrying t records := by
  refine ⟨?_, by rw [left]; exact carrying.cell⟩
  rw [← carrying.carried, Logger.carried, Logger.carried, output, left]
  congr 1
  refine List.map_congr_left fun d among => ?_
  rcases name with none | same
  · rw [none] at among
    contradiction
  · rw [carrying.cell d among, same]

/- What this step of addPacket appends to the queue. -/
def AddPacket.appended : AddPacket → List GenData
  | .enqueue new => [new]
  | _ => []

theorem queueAppended (sh : Shared) (pc : AddPacket) : (addPacketStep sh pc).1.queue = sh.queue ++ pc.appended := by
  cases pc with
  | enqueue new => rfl
  | waitCritical new =>
    change _ = sh.queue ++ []
    rw [List.append_nil]
    by_cases free : 0 < sh.critical
    · simp only [addPacketStep, if_pos free]
    · simp only [addPacketStep, if_neg free]
  | _ => exact (List.append_nil _).symm

theorem appendedPending {pc : AddPacket} {new : GenData} (among : new ∈ pc.appended) : pc.pending = some new := by
  cases pc with
  | enqueue own =>
    rw [List.mem_singleton.mp among]
    rfl
  | _ => contradiction

theorem imageRecordsAppended (s : State) (pc : AddPacket) (main : MainPc) (camera : CameraPc) :
    imageRecords { s with shared := (addPacketStep s.shared pc).1, main := main, camera := camera } =
      imageRecords s ++ pc.appended.filter fun d => d.type = .image := by
  rw [imageRecords, imageRecords, unwritten, unwritten, queueAppended, ← List.append_assoc, List.filter_append]

theorem frameRecordAppended {pc : AddPacket} (here : s.camera = .add pc) :
    (frameRecord s .camera).toList = pc.appended.map fun new => (new.ts, s.cells new.data) := by
  cases pc <;> simp only [frameRecord, here] <;> rfl

/- Another producer's record is no image; the camera's own is appended. -/
theorem Carrying.add {records : List (Nat × Text)} (carrying : Carrying s records) {pc : AddPacket} {main : MainPc}
    (packet : ∀ new ∈ pc.appended, new.type ≠ .image) :
    Carrying { s with shared := (addPacketStep s.shared pc).1, main := main } records := by
  refine carrying.keep rfl ?_ (.inr rfl)
  have none : (pc.appended.filter fun d => d.type = .image) = [] := List.filter_eq_nil_iff.mpr (by simpa using packet)
  rw [imageRecordsAppended, none, List.append_nil]

theorem Carrying.cameraAdd {records : List (Nat × Text)} (carrying : Carrying s records) {pc : AddPacket} {camera : CameraPc}
    (here : s.camera = .add pc) (image : ∀ new ∈ pc.appended, new.type = .image ∧ new.data = .nomefile) :
    Carrying { s with shared := (addPacketStep s.shared pc).1, camera := camera } (records ++ (frameRecord s .camera).toList) := by
  have all : (pc.appended.filter fun d => d.type = .image) = pc.appended :=
    List.filter_eq_self.mpr fun new among => decide_eq_true (image new among).1
  have appended : imageRecords { s with shared := (addPacketStep s.shared pc).1, camera := camera } =
      imageRecords s ++ pc.appended := by
    rw [imageRecordsAppended, all]
  refine ⟨?_, fun d among => ?_⟩
  · rw [frameRecordAppended here, ← carrying.carried, Logger.carried, Logger.carried, appended, List.map_append, List.append_assoc]
  · rw [appended] at among
    rcases List.mem_append.mp among with before | last
    · exact carrying.cell d before
    · exact (image d last).2

theorem Carrying.write {records : List (Nat × Text)} (carrying : Carrying s records) {d : GenData}
    (pc : s.writer = .print (some d)) :
    Carrying { s with output := s.output ++ [⟨d.type, d.ts, s.cells d.data⟩], writer := .testMode } records := by
  have before : unwritten s = d :: s.shared.queue := by simp [unwritten, WriterPc.hand, pc]
  have left : imageRecords { s with output := s.output ++ [⟨d.type, d.ts, s.cells d.data⟩], writer := .testMode } =
      s.shared.queue.filter fun d => d.type = .image := rfl
  refine ⟨?_, fun e among => carrying.cell e ?_⟩
  · rw [← carrying.carried, Logger.carried, Logger.carried, left, imageRecords, before, List.filter_append, List.map_append]
    by_cases image : d.type = .image
    · simp [image]
    · simp [image]
  · rw [left] at among
    rw [imageRecords, before]
    exact List.mem_filter.mpr ⟨List.mem_cons_of_mem d (List.mem_of_mem_filter among), (List.mem_filter.mp among).2⟩

theorem moveCarrying {records : List (Nat × Text)} (inOrder : InOrder s) (clear : Frames.StepClear s e)
    (carrying : Carrying s records) (move : Move numJoints s e t) :
    Carrying t (records ++ (frameRecord s e).toList) := by
  have idle {t : State} (elsewhere : frameRecord s e = none) (output : t.output = s.output)
      (left : imageRecords t = imageRecords s) (name : imageRecords s = [] ∨ t.cells .nomefile = s.cells .nomefile) :
      Carrying t (records ++ (frameRecord s e).toList) := by
    rw [elsewhere, Option.toList_none, List.append_nil]
    exact carrying.keep output left name
  cases move with
  | @print text p i pos =>
    have apart : Cell.nomefile ≠ p.cell := by cases p <;> decide
    exact idle rfl rfl rfl (.inr (Function.update_of_ne apart _ _))
  | @printJoint text i pos =>
    have apart : Cell.nomefile ≠ .jointBuffer := by decide
    exact idle rfl rfl rfl (.inr (Function.update_of_ne apart ((s.cells .jointBuffer).take pos ++ text) _))
  | @add text p pc main busy =>
    rw [show frameRecord s (.main text) = none from rfl, Option.toList_none, List.append_nil]
    refine carrying.add fun new among => ?_
    rw [inOrder.main p new (by rw [main, MainPc.pending, appendedPending among]; rfl)]
    exact packetNotImage p
  | @cameraAdd pc camera busy =>
    exact carrying.cameraAdd camera fun new among => inOrder.camera new (by rw [camera]; exact appendedPending among)
  | @name ts pc =>
    have none := (clear (by rw [pc]; rfl)).2
    exact idle (by simp only [frameRecord, pc]) rfl rfl (.inl none)
  | dequeue pc =>
    refine idle rfl rfl ?_ (.inr rfl)
    cases queue : s.shared.queue <;> simp [imageRecords, unwritten, WriterPc.hand, pc, queue]
  | release pc => exact idle rfl rfl (by simp [imageRecords, unwritten, WriterPc.hand, pc]) (.inr rfl)
  | crash pc => exact idle rfl rfl (by simp [imageRecords, unwritten, WriterPc.hand, pc]) (.inr rfl)
  | write pc =>
    rw [show frameRecord s .writer = none from rfl, Option.toList_none, List.append_nil]
    exact carrying.write pc
  | goOn pc | stopped pc | someLeft pc | noneLeft pc | granted pc | locked pc =>
    exact idle rfl rfl (by simp [imageRecords, unwritten, WriterPc.hand, pc]) (.inr rfl)
  | cameraStart pc | cameraEnter pc | cameraExit pc | frame pc | readTimestamp pc | save pc | cameraReturned pc | sleep pc =>
    exact idle (by simp only [frameRecord, pc]) rfl rfl (.inr rfl)
  | _ => exact idle rfl rfl rfl (.inr rfl)

/- A turn that changes nothing enqueues nothing. -/
theorem stillFrameRecord (same : step numJoints s e = s) : frameRecord s e = none := by
  by_cases camera : e = .camera
  · subst e
    cases pc : s.camera with
    | add stage =>
      cases stage with
      | enqueue new =>
        have stays := congrArg State.camera same
        simp [step, cameraStep, addPacketStep, pc] at stays
      | _ => simp only [frameRecord, pc]
    | _ => simp only [frameRecord, pc]
  · exact frameRecordNone camera

theorem initialCarrying (cells : Cell → Text) : Carrying (initial cells) [] := ⟨rfl, fun _ among => nomatch among⟩

theorem runCarrying {records : List (Nat × Text)} (inOrder : InOrder s) (carrying : Carrying s records) (events : List Event)
    (clear : Frames.RunClear numJoints s events) :
    Carrying (run numJoints s events) (records ++ frameRecords numJoints s events) := by
  induction events generalizing s records with
  | nil => rwa [frameRecords, List.append_nil]
  | cons e rest ih =>
    obtain ⟨now, later⟩ := clear
    have inOrderNext : InOrder (step numJoints s e) := stepKeeps inOrder (moveInOrder inOrder)
    have carryingNext : Carrying (step numJoints s e) (records ++ (frameRecord s e).toList) := by
      rcases stepMove numJoints s e with same | move
      · rw [same]
        rw [stillFrameRecord same, Option.toList_none, List.append_nil]
        exact carrying
      · exact moveCarrying inOrder now carrying move
    have after := ih inOrderNext carryingNext later
    rwa [List.append_assoc] at after

/- A frame and its line, a period of the main loop, and another frame. -/
def pacedFrames : List Event :=
  List.replicate 12 .camera ++ List.replicate 6 .writer ++ List.replicate 32 (.main []) ++ List.replicate 12 .camera

/- A writer that is a frame behind finds the later name in both records. -/
example : carried (run 0 (initial fun _ => [])
    (List.replicate 12 .camera ++ List.replicate 32 (.main []) ++ List.replicate 12 .camera)) =
      [(0, imageName 1), (1, imageName 1)] := by
  decide +kernel

/- The main loop increments between the two readings. -/
example : frameRecords 0 (initial fun _ => [])
    (List.replicate 4 .camera ++ List.replicate 32 (.main []) ++ List.replicate 4 .camera) = [(0, imageName 1)] := by
  decide +kernel

end OrazioLogger.Logger
