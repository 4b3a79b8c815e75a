import OrazioLogger.JointIndices

/-! A parameter request: which joint entries it reaches, and what a successful answer says of the parameters. -/
namespace OrazioLogger.Firmware
open ByteMemory RingBuffer OrazioPackets OrazioComm
open OrazioClient (load16 store16)

variable {F : Type}

/-! The copies between RAM and EEPROM. -/

/- What `Orazio_paramLoad` does before `Orazio_paramSet`. -/
def paramRead (b : Board F) (paramType : UInt8) (index : Int) (f : State F) : State F :=
  if paramType = paramSystem then eepromRead f .systemParams 0 systemParamOffset sizeofSystemParamPacket.toNat
  else if paramType = paramJointsSingle then
    let f := checkIndex f index
    if 0 ≤ index then eepromRead f .jointParams (jointParam index.toNat) (jointSlot index) sizeofJointParamPacket.toNat
    else f
  else if paramType = paramDrive then
    eepromRead f .driveParams 0 driveParamOffset sizeofDifferentialDriveParamPacket.toNat
  else if paramType = paramSonar ∧ b.sonar then
    eepromRead f .sonarParams 0 sonarParamOffset sizeofSonarParamPacket.toNat
  else f

/- The state of a request when its copies are made; a load goes on with `Orazio_paramSet`. -/
def copied (b : Board F) (p : Addr) (o : Outside F) : State F :=
  let action := o.memory (p + 4)
  let paramType := o.memory (p + 5)
  let index := signed8 (o.memory (p + 6))
  let f := setRxSeq o.memory p o.app
  if action = paramRequest then f
  else if action = paramLoadAction then paramRead b paramType index f
  else if action = paramSaveAction then (paramSave b paramType index f).2
  else f

section Copies
variable {b : Board F} {p : Addr} {o : Outside F}

theorem paramLoadReads (b : Board F) (paramType : UInt8) (index : Int) (f : State F) :
    (paramLoad b paramType index f).2 = if (targetGlobal b.sonar paramType).isSome then
      (paramSet b paramType (paramRead b paramType index f)).2 else paramRead b paramType index f := by
  unfold paramLoad paramRead targetGlobal
  split_ifs <;> first | rfl | simp_all

theorem requestedCopied (b : Board F) (p : Addr) (o : Outside F) : (requested b p o).2 =
    if o.memory (p + 4) = paramLoadAction ∧ (targetGlobal b.sonar (o.memory (p + 5))).isSome then
      (paramSet b (o.memory (p + 5)) (copied b p o)).2
    else copied b p o := by
  unfold requested copied
  dsimp only
  by_cases load : o.memory (p + 4) = paramLoadAction
  · have other : paramLoadAction ≠ paramRequest := by decide
    simp only [load, if_neg other, if_true, true_and]
    exact paramLoadReads b _ _ _
  · simp only [load, if_false, false_and]
    split
    · rfl
    · split <;> rfl

theorem checkIndexInside {index : Int} (inside : JointIndex index) (f : State F) : checkIndex f index = f := if_pos inside

/- The copies of a request for a joint of the table stay in the tables. -/
theorem copiedFault (valid : ValidPacket o.memory p .handleParamCtl) : (copied b p o).fault = o.app.fault := by
  have checked : ∀ f : State F, o.memory (p + 5) = paramJointsSingle → checkIndex f (signed8 (o.memory (p + 6))) = f :=
    fun f joints => checkIndexInside (valid.jointIndex joints) f
  unfold copied
  dsimp only
  split
  · rfl
  split
  · unfold paramRead
    split_ifs with _ joints <;> first | rfl | (rw [checked _ joints]; rfl)
  split
  · unfold paramSave
    split_ifs with _ joints <;> first | rfl | (rw [checked _ joints]; rfl)
  · rfl

end Copies

/-! The joint a request is about. -/

/- A request that is answered with an error and nothing else. -/
structure JointRefused (b : Board F) (p : Addr) (o : Outside F) : Prop where
  status : (handleParamCtl b p o).1 = .genericError
  alone : ∃ sent, (handleParamCtl b p o).2.app.sendResults = o.app.sendResults ++ [sent]
  parameters : ∀ g ∈ parameters, (handleParamCtl b p o).2.app.globals g = o.app.globals g
  eeprom : (handleParamCtl b p o).2.app.eeprom = o.app.eeprom

/- Neither the copies nor the parameters sent reach beyond the tables, and a joint there is not is refused. -/
structure JointRequestChecked (b : Board F) (p : Addr) (o : Outside F) : Prop where
  copies : (copied b p o).fault = o.app.fault
  sends : (handleParamCtl b p o).2.app.fault = (requested b p o).2.fault
  refused : o.memory (p + 5) = paramJointsSingle → numJoints ≤ (o.memory (p + 6)).toNat → JointRefused b p o

section Joint
variable {b : Board F} {p : Addr} {o : Outside F}

theorem sendPacketCounted (g : Global) (offset : Nat) (o : Outside F) :
    ∃ sent, (sendPacket g offset o).2.app.sendResults = o.app.sendResults ++ [sent] := by
  unfold sendPacket
  dsimp only
  refine ⟨_, (countSentResults _ _).trans (congrArg (· ++ _) ?_)⟩
  split <;> rfl

theorem sendResponseCounted (p : Addr) (result : PacketStatus) (o : Outside F) :
    ∃ sent, (sendResponse p result o).app.sendResults = o.app.sendResults ++ [sent] :=
  sendPacketCounted .response 0 (withApp o (o.app.set .response (responseTo p result o.memory (o.app.globals .response))))

theorem jointRequestChecked (b : Board F) (p : Addr) (o : Outside F) :
    JointRequestChecked b p o ↔ (o.memory (p + 5) = paramJointsSingle → (o.memory (p + 6)).toNat < numJoints) := by
  constructor
  · intro checked joints
    by_contra large
    obtain ⟨sent, alone⟩ := (checked.refused joints (not_lt.mp large)).alone
    have found : target b (o.memory (p + 5)) (o.memory (p + 6)) =
        some (.jointParams, jointParam (o.memory (p + 6)).toNat) := by
      rw [joints]
      rfl
    obtain ⟨first, told⟩ := sendPacketCounted .jointParams (jointParam (o.memory (p + 6)).toNat)
      (withApp o (requested b p o).2)
    obtain ⟨second, answered⟩ := sendResponseCounted p (requested b p o).1
      (sendPacket .jointParams (jointParam (o.memory (p + 6)).toNat) (withApp o (requested b p o).2)).2
    rw [handleParamCtlTold found] at alone
    have length := congrArg List.length (alone.symm.trans answered)
    rw [told] at length
    have results : (withApp o (requested b p o).2).app.sendResults = o.app.sendResults := requestedUntold.results
    rw [results] at length
    simp only [List.length_append, List.length_singleton] at length
    omega
  · intro small
    have valid : ValidPacket o.memory p .handleParamCtl := small
    refine ⟨copiedFault valid, ?_, fun joints large => absurd (small joints) (not_lt.mpr large)⟩
    change (act b .handleParamCtl p o).app.fault = _
    rw [actAnswers valid]
    have only := (@sendEchoOnly _ b o p .handleParamCtl valid (withApp o (requested b p o).2)).trans
      (sendResponseOnly p (outcome b .handleParamCtl p o) _)
    have same := congrArg State.fault only.same
    exact same

end Joint

/- A request for the parameters of joint 2. -/
def thirdJointRequested : Outside Rat :=
  (firstEpoch (packetLine [[paramControlPacketId, sizeofParamControlPacket, 1, 0, paramRequest, paramJointsSingle, 2]])).outside

theorem thirdJointAnswered : thirdJointRequested.memory 512 = paramControlPacketId ∧
    thirdJointRequested.memory 517 = paramJointsSingle ∧ (thirdJointRequested.memory 518).toNat = 2 ∧
    (handleParamCtl bench 512 thirdJointRequested).1 = .success ∧ ¬ JointRequestChecked bench 512 thirdJointRequested := by
  have success : (handleParamCtl bench 512 thirdJointRequested).1 = .success := by decide +kernel
  have joints : thirdJointRequested.memory (512 + 5) = paramJointsSingle := by decide +kernel
  have large : numJoints ≤ (thirdJointRequested.memory (512 + 6)).toNat := by decide +kernel
  refine ⟨by decide +kernel, joints, by decide +kernel, success, fun checked => ?_⟩
  exact nomatch success.symm.trans (checked.refused joints large).status

/-! A successful answer. -/

def told (b : Board F) (p : Addr) (o : Outside F) : Option (Global × Nat) := target b (o.memory (p + 5)) (o.memory (p + 6))

/- The ring takes a response that says success. -/
def SuccessEnqueued (b : Board F) (p : Addr) (o : Outside F) : Prop :=
  (requested b p o).1 = .success ∧ (handleParamCtl b p o).2.app.sendResults.getLast? = some .success

/- What a success stands for: a class and an action there are, a load whose parameters were taken, and the parameters
enqueued in front of the response. -/
structure ParametersSent (b : Board F) (p : Addr) (o : Outside F) : Prop where
  action : o.memory (p + 4) = paramRequest ∨ o.memory (p + 4) = paramLoadAction ∨ o.memory (p + 4) = paramSaveAction
  taken : o.memory (p + 4) = paramLoadAction → (paramSet b (o.memory (p + 5)) (copied b p o)).1 = .success
  results : (handleParamCtl b p o).2.app.sendResults = o.app.sendResults ++ [.success, .success]
  enqueued : ∃ g offset, told b p o = some (g, offset) ∧ PacketAt g offset ∧ ∃ response,
    PacketHandler.waiting (handleParamCtl b p o).2.baseHandler = PacketHandler.waiting o.baseHandler ++
      PacketHandler.frame (bodyAt (requested b p o).2 g offset) ++ PacketHandler.frame response

/- The frame of the parameters, by the size in their header. -/
def toldFrame (b : Board F) (p : Addr) (o : Outside F) : Int :=
  match told b p o with
  | none => 0
  | some (g, offset) => frameAt (copied b p o) g offset

/- The room the parameters leave is enough for the response. -/
def ResponseFits (b : Board F) (p : Addr) (o : Outside F) : Prop :=
  Room o ((if Room o (toldFrame b p o) then toldFrame b p o else 0) + frameAt o.app .response 0)

instance (b : Board F) (p : Addr) (o : Outside F) : Decidable (ResponseFits b p o) := inferInstanceAs (Decidable (Room o _))

/- The parameters asked for are there, fit the ring, and are taken by the bridges if they are those of a joint. -/
structure Answers (b : Board F) (p : Addr) (o : Outside F) : Prop where
  known : (told b p o).isSome
  valid : ValidPacket o.memory p .handleParamCtl
  room : Room o (toldFrame b p o)
  taken : o.memory (p + 4) = paramLoadAction → o.memory (p + 5) = paramJointsSingle → AllAccepted b (copied b p o) 0 numJoints

section Success
variable {b : Board F} {p : Addr} {o : Outside F}

theorem paramSetSuccess (b : Board F) {paramType : UInt8} (known : (targetGlobal b.sonar paramType).isSome) (f : State F) :
    (paramSet b paramType f).1 = .success ↔ (paramType = paramJointsSingle → AllAccepted b f 0 numJoints) := by
  unfold paramSet
  by_cases joints : paramType = paramJointsSingle
  · rw [joints, if_neg (by decide), if_pos rfl, jointsInitSuccess]
    simp
  · rw [if_neg joints]
    refine iff_of_true ?_ fun same => absurd same joints
    unfold targetGlobal at known
    split_ifs at known ⊢ <;> first | rfl | simp_all

theorem toldKnown (b : Board F) (p : Addr) (o : Outside F) :
    (told b p o).isSome = (targetGlobal b.sonar (o.memory (p + 5))).isSome := by
  unfold told target targetGlobal
  split_ifs <;> rfl

/- Setting parameters again writes pins and the odometry only. -/
theorem paramSetOutside (b : Board F) (paramType : UInt8) (f : State F) :
    SameOutside (fun g a => PinWritten g a ∨ OdometryWritten g a) f (paramSet b paramType f).2 := by
  have drive : SameOutside (fun g a => PinWritten g a ∨ OdometryWritten g a) f (driveInit b f).2 :=
    fun g a outside => (driveInitOnly b f).globals g a fun written => outside (Or.inr written)
  unfold paramSet
  split
  · exact drive
  split
  · exact fun g a outside => (jointsInitEnds b f).only.globals g a fun written => outside (Or.inl written)
  split
  · exact drive
  split <;> exact .refl f

theorem requestedFrame {g : Global} {offset : Nat} (found : told b p o = some (g, offset)) :
    frameAt (requested b p o).2 g offset = frameAt (copied b p o) g offset := by
  have apart : ¬ (PinWritten g (offset + 1) ∨ OdometryWritten g (offset + 1)) := by
    unfold told target at found
    rintro (⟨table, i, -, k, below, place⟩ | ⟨odometry, -⟩)
    · split_ifs at found <;> cases found <;> try cases table
      simp only [pinAt, jointParamEntry] at place
      omega
    · split_ifs at found <;> cases found <;> cases odometry
  rw [requestedCopied]
  split
  · rw [frameAt, paramSetOutside b _ _ g _ apart, frameAt]
  · rfl

theorem checkIndexGlobals (index : Int) (f : State F) : (checkIndex f index).globals = f.globals := by
  unfold checkIndex
  split <;> rfl

/- The copies are those of parameters. -/
theorem copiedGlobals {g : Global} (other : g ∉ parameters) (counters : g ≠ .systemStatus) :
    (copied b p o).globals g = o.app.globals g := by
  have numbered : (setRxSeq o.memory p o.app).globals g = o.app.globals g := setOther _ _ _ counters
  have read : ∀ (f : State F) (h : Global) offset src size, h ∈ parameters →
      (eepromRead f h offset src size).globals g = f.globals g := fun f h offset src size parameter =>
    setOther _ _ _ fun same => other (same ▸ parameter)
  unfold copied
  dsimp only
  split
  · exact numbered
  split
  · unfold paramRead
    split
    · rw [read _ _ _ _ _ (by decide), numbered]
    split
    · dsimp only
      split
      · rw [read _ _ _ _ _ (by decide), checkIndexGlobals, numbered]
      · rw [checkIndexGlobals, numbered]
    split
    · rw [read _ _ _ _ _ (by decide), numbered]
    split
    · rw [read _ _ _ _ _ (by decide), numbered]
    · exact numbered
  split
  · unfold paramSave
    split_ifs
    · exact numbered
    · exact (congrFun (checkIndexGlobals _ _) g).trans numbered
    · exact numbered
    · exact numbered
    · exact numbered
  · exact numbered

theorem requestedResponse (b : Board F) (p : Addr) (o : Outside F) :
    frameAt (requested b p o).2 .response 0 = frameAt o.app .response 0 := by
  have copies : (copied b p o).globals .response = o.app.globals .response := copiedGlobals (by decide) (by decide)
  rw [requestedCopied]
  split
  · rw [frameAt, paramSetOutside b _ _ .response _ (by simp [PinWritten, OdometryWritten]), copies, frameAt]
  · rw [frameAt, copies, frameAt]

theorem sendPacketResponse {g : Global} (offset : Nat) (other : g ≠ .response) (o : Outside F) :
    frameAt (sendPacket g offset o).2.app .response 0 = frameAt o.app .response 0 := by
  rw [frameAt, sendPacketOther offset o other.symm (by decide), frameAt]

/- The call, as the ring and the record of what was sent see it. -/
structure Calls (b : Board F) (p : Addr) (o : Outside F) : Prop where
  results : (handleParamCtl b p o).2.app.sendResults = o.app.sendResults ++
    (if (told b p o).isSome then [sendStatus (decide (Room o (toldFrame b p o)))] else []) ++
      [sendStatus (decide (ResponseFits b p o))]
  waiting : ∃ response, PacketHandler.waiting (handleParamCtl b p o).2.baseHandler = PacketHandler.waiting o.baseHandler ++
    (match told b p o with
      | none => []
      | some (g, offset) =>
        if Room o (toldFrame b p o) then PacketHandler.frame (bodyAt (requested b p o).2 g offset) else []) ++
    if ResponseFits b p o then PacketHandler.frame response else []

theorem handleParamCtlCalls (ring : Valid packetSizeMax o.baseHandler.tx) : Calls b p o := by
  have response := requestedResponse b p o
  cases found : told b p o with
  | none =>
    have sent := sendResponseHanded (o := withApp o (requested b p o).2) ring p (requested b p o).1
    rw [← handleParamCtlSilent found, show frameAt (withApp o (requested b p o).2).app .response 0 = _ from response] at sent
    have fits : ResponseFits b p o ↔ Room (withApp o (requested b p o).2) (frameAt o.app .response 0) := by
      rw [ResponseFits, toldFrame, found]
      dsimp only
      rw [ite_self, Int.zero_add]
      exact Iff.rfl
    have queued := sent.waiting
    generalize bodyAt _ Global.response 0 = body at queued
    refine ⟨?_, body, queued.trans ?_⟩
    · rw [sent.results, found, if_neg (by decide), List.append_nil, decide_eq_decide.mpr fits]
      exact congrArg (· ++ _) requestedUntold.results
    · rw [found, if_congr fits rfl rfl]
      exact congrArg (· ++ _) (List.append_nil _).symm
  | some packet =>
    obtain ⟨g, offset⟩ := packet
    have parameter : g ≠ .response := by
      rintro rfl
      exact absurd (targetParameter found) (by decide)
    have first := sendPacketHanded (o := withApp o (requested b p o).2) ring g offset
    have second := sendResponseHanded first.ring p (requested b p o).1
    rw [← handleParamCtlTold found, sendPacketResponse offset parameter,
      show frameAt (withApp o (requested b p o).2).app .response 0 = _ from response] at second
    have frame : frameAt (withApp o (requested b p o).2).app g offset = toldFrame b p o := by
      rw [toldFrame, found]
      exact requestedFrame found
    rw [frame] at first
    have fits : ResponseFits b p o ↔
        Room (sendPacket g offset (withApp o (requested b p o).2)).2 (frameAt o.app .response 0) := by
      unfold ResponseFits Room
      rw [first.length, ← Int.add_assoc]
      exact Iff.rfl
    have queued := second.waiting
    generalize bodyAt _ Global.response 0 = body at queued
    refine ⟨?_, body, queued.trans ?_⟩
    · rw [second.results, first.results, found, if_pos (show (some (g, offset)).isSome = true from rfl),
        decide_eq_decide.mpr fits]
      exact congrArg (· ++ _ ++ _) requestedUntold.results
    · rw [first.waiting, found, if_congr fits rfl rfl]
      rfl

theorem sendStatusSuccess {taken : Bool} : sendStatus taken = .success ↔ taken = true := by cases taken <;> decide

theorem successEnqueued (calls : Calls b p o) :
    SuccessEnqueued b p o ↔ Accepts b .handleParamCtl p o ∧ ResponseFits b p o := by
  rw [SuccessEnqueued, requestedSuccess, calls.results, List.getLast?_concat, Option.some_inj, sendStatusSuccess,
    decide_eq_true_eq]

theorem PacketAt.validTarget {g : Global} {offset : Nat} (packet : PacketAt g offset) (found : told b p o = some (g, offset)) :
    ValidPacket o.memory p .handleParamCtl := by
  intro joints
  unfold told target at found
  rw [joints, if_neg (by decide), if_pos rfl] at found
  cases found
  generalize place : jointParam (o.memory (p + 6)).toNat = offset at packet
  cases packet with
  | joint inside =>
    rw [jointParamEntry, jointParamEntry] at place
    omega
  | single member => exact absurd member (by decide)

theorem parametersBeforeSuccess (ring : Valid packetSizeMax o.baseHandler.tx) :
    (SuccessEnqueued b p o → ParametersSent b p o) ↔
      ¬ Accepts b .handleParamCtl p o ∨ ¬ ResponseFits b p o ∨ Answers b p o := by
  have calls : Calls b p o := handleParamCtlCalls ring
  rw [successEnqueued calls]
  constructor
  · intro complete
    by_cases accepts : Accepts b .handleParamCtl p o
    · by_cases fits : ResponseFits b p o
      · refine Or.inr (Or.inr ?_)
        obtain ⟨-, taken, results, g, offset, found, packet, -⟩ := complete ⟨accepts, fits⟩
        have known : (told b p o).isSome := by rw [found]; rfl
        refine ⟨known, packet.validTarget found, ?_, fun load joints => ?_⟩
        · have same := calls.results.symm.trans results
          rw [if_pos known, List.append_assoc] at same
          have first := List.append_cancel_left same
          simp only [List.cons_append, List.nil_append, List.cons.injEq, sendStatusSuccess, decide_eq_true_eq] at first
          exact first.1
        · rw [toldKnown] at known
          exact (paramSetSuccess b known _).mp (taken load) joints
      · exact Or.inr (Or.inl fits)
    · exact Or.inl accepts
  · rintro condition ⟨accepts, fits⟩
    obtain ⟨known, valid, room, taken⟩ := (condition.resolve_left (not_not_intro accepts)).resolve_left (not_not_intro fits)
    obtain ⟨⟨g, offset⟩, found⟩ := Option.isSome_iff_exists.mp known
    refine ⟨?_, fun load => ?_, ?_, g, offset, found, targetPacket valid found, ?_⟩
    · exact accepts.imp_right fun loadOrSave => loadOrSave.1
    · rw [toldKnown] at known
      exact (paramSetSuccess b known _).mpr (taken load)
    · rw [calls.results, if_pos known, decide_eq_true room, decide_eq_true fits, List.append_assoc]
      rfl
    · obtain ⟨response, waiting⟩ := calls.waiting
      rw [found, if_pos fits] at waiting
      refine ⟨response, waiting.trans ?_⟩
      dsimp only
      rw [if_pos room]

end Success

theorem driveParametersSent : (SuccessEnqueued bench 512 requestReceived → ParametersSent bench 512 requestReceived) ↔
    ¬ Accepts bench .handleParamCtl 512 requestReceived ∨ ¬ ResponseFits bench 512 requestReceived ∨
      Answers bench 512 requestReceived :=
  parametersBeforeSuccess (firstEpochAnswerable _).intact.ring

/- A request for a class there is not: the second switch of the handler takes the error back. -/
def unknownRequested : Outside Rat :=
  (firstEpoch (packetLine [[paramControlPacketId, sizeofParamControlPacket, 1, 0, paramRequest, 9, 0]])).outside

theorem unknownClassSucceeds : unknownRequested.memory 512 = paramControlPacketId ∧ unknownRequested.memory 517 = 9 ∧
    SuccessEnqueued bench 512 unknownRequested ∧ ¬ ParametersSent bench 512 unknownRequested := by
  have none : told bench 512 unknownRequested = none := by decide +kernel
  refine ⟨by decide +kernel, by decide +kernel, ⟨by decide +kernel, by decide +kernel⟩, fun sent => ?_⟩
  obtain ⟨g, offset, found, -⟩ := sent.enqueued
  rw [none] at found
  cases found

end OrazioLogger.Firmware
