import OrazioLogger.Telemetry

/-! The client as a mirror of the firmware: after every cycle that `OrazioClient_sync` has followed, its copies of the status
packets hold what the globals of the firmware held when that cycle was closed. -/
namespace OrazioLogger.Firmware
open ByteMemory Countdown Outcome OrazioPackets OrazioComm DeferredPacketHandler
open OrazioClient (load16 EpochPacket Epoch endOfEpoch endEpochOp deposited stored emitted framed copied copiedPlace)

variable {F : Type}

/-! A run of the main loop, as it is seen on the line. -/

/- The call of `Orazio_commHandle` in a turn that handles a cycle. -/
def cycleOf (b : Board F) (s : Main F) (turn : Turn) : List UInt8 × Machine F :=
  commHandle b turn.line (beforeComm b turn (idleTurn b s turn)).machine

def telemetry (b : Board F) (s : Main F) : List Turn → List UInt8
  | [] => []
  | turn :: rest => (if handles b s turn then (cycleOf b s turn).1 else []) ++ telemetry b (loopTurn b s turn) rest

/- The states in which the cycles are closed. -/
def reports (b : Board F) (s : Main F) : List Turn → List (State F)
  | [] => []
  | turn :: rest => (if handles b s turn then [(cycleOf b s turn).2.outside.app] else []) ++ reports b (loopTurn b s turn) rest

/- What the cycle sends has room in the ring. -/
def Fits (b : Board F) (s : Main F) (turn : Turn) : Prop :=
  handles b s turn = true →
    roomFor (cyclePackets b turn.line (beforeComm b turn (idleTurn b s turn)).machine) ≤ packetSizeMax

instance (b : Board F) (s turn) : Decidable (Fits b s turn) := by unfold Fits; infer_instance

/- What holds in front of every turn. -/
structure Reporting (b : Board F) (s : Main F) : Prop where
  guarded : Guarded b.sonar s
  ready : Ready b s.machine
  typed : Marked b.sonar 0 s.app
  indexed : Indexed s.app

section Runs
variable {b : Board F} {turn : Turn} {s : Main F}

/- The machine that `Orazio_commHandle` is called with. -/
structure Calling (b : Board F) (s : Main F) (m : Machine F) : Prop where
  ready : Ready b m
  typed : Marked b.sonar 0 m.outside.app
  steady : Steady s.app m.outside.app

theorem Reporting.calling (reporting : Reporting b s) (turn : Turn) :
    Calling b s (beforeComm b turn (idleTurn b s turn)).machine :=
  ⟨beforeCommReady reporting.guarded reporting.ready, beforeCommMarked (by decide) reporting.typed,
    ((steadyFrame b).idleTurn s turn).trans ((steadyFrame b).beforeComm turn _)⟩

theorem processLoopIndexed {m : Machine F} (pending : List Addr) (tabled : Tabled b.sonar m)
    (valid : ∀ p ∈ pending, ValidPending b.sonar m.outside.memory p) (indexed : Indexed m.outside.app) :
    Indexed (processLoop (act b) m pending).1.outside.app := by
  induction pending generalizing m with
  | nil => exact indexed
  | cons p rest ih =>
    obtain ⟨action, found, validHere⟩ := valid p List.mem_cons_self
    have processed := processPacketProcessed tabled found validHere
    have outside := processPacketActs tabled found
    have prepared : Indexed (withApp m.outside (prepared b action p m.outside)).app := (preparedSteady validHere).indexed indexed
    have first : Indexed (act b action p m.outside).app := (actSends validHere).steady.indexed prepared
    rw [← outside] at first
    have second := ih processed.tabled (fun q member => by
      rw [processed.memory]
      exact valid q (List.mem_cons_of_mem p member)) first
    exact second

theorem commHandleIndexed {line : Line} {m : Machine F} (tabled : Tabled b.sonar m) (valid : ValidBatch b line m)
    (indexed : Indexed m.outside.app) : Indexed (commHandle b line m).2.outside.app := by
  have begun : Indexed (beginEpoch line m).outside.app := (beginEpochOnly line m).indexed indexed
  have handled : Indexed (processPending b (beginEpoch line m)).outside.app :=
    processLoopIndexed _ (beginEpochTabled line tabled) valid begun
  have counted : Steady (completeEpoch b (processPending b (beginEpoch line m))).outside.app
      (commHandle b line m).2.outside.app := setSteady _ _ (by decide)
  exact counted.indexed ((sendPeriodicOnly b (processPending b (beginEpoch line m)).outside).steady.indexed handled)

theorem loopTurnReporting (reporting : Reporting b s) (sound : Sound b s turn) : Reporting b (loopTurn b s turn) := by
  refine ⟨loopTurnGuarded reporting.guarded sound, loopTurnReady reporting.guarded sound reporting.ready,
    loopTurnMarked (by decide) reporting.guarded sound reporting.typed, ?_⟩
  cases handled : handles b s turn with
  | false =>
    rw [loopTurnIdle handled]
    exact ((steadyFrame b).idleTurn s turn).indexed reporting.indexed
  | true =>
    have calling := reporting.calling turn
    rw [loopTurnHandled handled]
    exact ((steadyFrame b).afterComm turn _ _).indexed
      (commHandleIndexed calling.ready.tabled (sound handled).1 (calling.steady.indexed reporting.indexed))

/- The cycle that a turn handles is one epoch on the line. -/
theorem turnTells (reporting : Reporting b s) (sound : Sound b s turn) (fits : Fits b s turn) (handled : handles b s turn = true) :
    ∃ e : Epoch, (cycleOf b s turn).1 = framed (s.app.globalSeq + 1) e.all ∧ TellsEpoch b (cycleOf b s turn).2.outside.app e ∧
      (cycleOf b s turn).2.outside.app.globalSeq = s.app.globalSeq + 1 ∧
      (loopTurn b s turn).app.globalSeq = s.app.globalSeq + 1 := by
  have calling := reporting.calling turn
  obtain ⟨e, bytes, told, -, epoch⟩ := commHandleTells (calling.ready.answerable calling.typed turn.line) calling.ready
    (calling.steady.indexed reporting.indexed) (sound handled).1 (fits handled)
  rw [calling.steady.epoch] at bytes epoch
  refine ⟨e, bytes, told, epoch, ?_⟩
  rw [loopTurnHandled handled]
  exact ((steadyFrame b).afterComm turn _ _).epoch.trans epoch

theorem telemetryEpochs {turns : List Turn} (reporting : Reporting b s)
    (each : Each (loopTurn b) (fun s turn => Sound b s turn ∧ Fits b s turn) s turns) :
    ∃ epochs : Nat → Epoch, telemetry b s turns = emitted epochs (s.app.globalSeq + 1) (reports b s turns).length ∧
      ∀ k f, (reports b s turns)[k]? = some f →
        TellsEpoch b f (epochs k) ∧ f.globalSeq = s.app.globalSeq + 1 + UInt16.ofNat k := by
  induction turns generalizing s with
  | nil => exact ⟨fun _ => ⟨[], fun _ none => nomatch none⟩, rfl, fun _ _ none => nomatch none⟩
  | cons turn rest ih =>
    obtain ⟨⟨sound, fits⟩, others⟩ := each
    obtain ⟨epochs, bytes, told⟩ := ih (loopTurnReporting reporting sound) others
    unfold telemetry reports
    cases handled : handles b s turn with
    | false =>
      have same : (loopTurn b s turn).app.globalSeq = s.app.globalSeq := by
        rw [loopTurnIdle handled]
        exact ((steadyFrame b).idleTurn s turn).epoch
      rw [same] at bytes told
      exact ⟨epochs, bytes, told⟩
    | true =>
      obtain ⟨e, here, tells, report, next⟩ := turnTells reporting sound fits handled
      rw [next] at bytes told
      refine ⟨fun k => k.casesOn e epochs, ?_, ?_⟩
      · rw [if_pos rfl, if_pos rfl, here, bytes]
        rfl
      · rintro (_ | k) f found
        · obtain rfl := Option.some.inj found
          exact ⟨tells, report.trans (UInt16.add_zero _).symm⟩
        · obtain ⟨tells, number⟩ := told k f found
          exact ⟨tells, number.trans (OrazioClient.nextNumber _ k)⟩

end Runs

/-! What the client keeps of an epoch. -/

section Deposits
variable {b : Board F} {f : State F} {seq : PacketSeq} {m : Memory} {p : EpochPacket}

theorem EpochPacket.within (p : EpochPacket) {a : Nat} (inside : a < p.op.size.toNat) :
    Inside p.place p.op.size.toNat (p.place + a) := ⟨Nat.le_add_right _ _, Nat.add_lt_add_left inside _⟩

/- Packets with other places leave the copy alone. -/
theorem depositedOthers (packets : List EpochPacket) (others : ∀ q ∈ packets, q.place ≠ p.place) {a : Nat}
    (inside : a < p.op.size.toNat) : deposited seq packets m (p.place + a) = m (p.place + a) := by
  obtain ⟨-, -, -, here⟩ := p.placeIndexed
  induction packets generalizing m with
  | nil => rfl
  | cons q rest ih =>
    obtain ⟨-, -, -, there⟩ := q.placeIndexed
    refine (ih fun r member => others r (List.mem_cons_of_mem q member)).trans ?_
    rcases OrazioClient.slotsApart _ there _ here with same | disjoint
    · exact absurd (Prod.mk.inj same).1 (others q List.mem_cons_self)
    · exact (copiedPlace q seq m _).trans (if_neg (disjointOutside disjoint (EpochPacket.within p inside)))

/- The last packet of a place is kept. -/
theorem depositedLast (before after : List EpochPacket) (last : ∀ q ∈ after, q.place ≠ p.place) {a : Nat}
    (inside : a < p.op.size.toNat) : deposited seq (before ++ p :: after) m (p.place + a) = (p.body seq).getD a 0 := by
  rw [deposited, List.foldl_append, List.foldl_cons]
  refine (depositedOthers after last inside).trans ?_
  rw [copiedPlace, if_pos (EpochPacket.within p inside), Nat.add_sub_cancel_left]

theorem storedSucc (epochs : Nat → Epoch) (n : Nat) :
    stored epochs seq m (n + 1) = deposited (seq + UInt16.ofNat n) (epochs n).all (stored epochs seq m n) := by
  induction n generalizing epochs seq m with
  | zero =>
    rw [show UInt16.ofNat 0 = 0 from rfl, UInt16.add_zero]
    rfl
  | succ n ih =>
    refine (ih fun k => epochs (k + 1)).trans ?_
    rw [OrazioClient.nextNumber]
    rfl

/- A packet that is not of a table has one place. -/
theorem placeAlone {g : Global} (op : p.op = receivedAs g) (single : (receivedAs g).indexed = false) :
    p.place = clientPlace g := by
  unfold EpochPacket.place OrazioClient.destination
  rw [op, single]
  rfl

/- All that the mask can ask for. -/
def statusPackets : List (Global × Nat) :=
  [(.systemStatus, 0), (.jointStatus, jointStatusAt 0), (.jointStatus, jointStatusAt 1), (.driveStatus, 0), (.sonarStatus, 0)]

def entryPlace (entry : Global × Nat) : Addr := clientPlace entry.1 + entry.2

theorem periodicSublist (b : Board F) (f : State F) : (periodicPackets b f).Sublist statusPackets := by
  have pick : ∀ (c : Prop) [Decidable c] (entries : List (Global × Nat)), (if c then entries else []).Sublist entries := by
    intro c _ entries
    split
    · exact List.Sublist.refl _
    · exact List.nil_sublist _
  have all : statusPackets = ((([(Global.systemStatus, 0)] ++
      (List.range numJoints).map fun i => (Global.jointStatus, jointStatusAt i)) ++ [(.driveStatus, 0)]) ++ [(.sonarStatus, 0)]) := rfl
  unfold periodicPackets
  rw [all]
  exact (((pick _ _).append (pick _ _)).append (pick _ _)).append (pick _ _)

theorem periodicApart (b : Board F) (f : State F) :
    (periodicPackets b f).Pairwise fun entry other => entryPlace other ≠ entryPlace entry :=
  List.Pairwise.sublist (periodicSublist b f) (by decide)

theorem statusAlone : ∀ entry ∈ statusPackets, clientPlace .stringMessage ≠ entryPlace entry ∧
    clientPlace .endEpoch ≠ entryPlace entry := by decide

theorem toldPlace {entries : List (Global × Nat)} {statuses : List EpochPacket}
    (told : List.Forall₂ (Tells f) entries statuses) {q : EpochPacket} (member : q ∈ statuses) :
    ∃ entry ∈ entries, q.place = entryPlace entry := by
  induction told with
  | nil => cases member
  | @cons entry p _ _ here _ ih =>
    rcases List.mem_cons.mp member with rfl | later
    · exact ⟨entry, List.mem_cons_self, here.place⟩
    · obtain ⟨other, inside, place⟩ := ih later
      exact ⟨other, List.mem_cons_of_mem entry inside, place⟩

/- Nothing that follows a status packet has its place. -/
theorem toldLast {entries : List (Global × Nat)} {statuses after : List EpochPacket}
    (told : List.Forall₂ (Tells f) entries statuses)
    (apart : entries.Pairwise fun entry other => entryPlace other ≠ entryPlace entry)
    (others : ∀ entry ∈ entries, ∀ q ∈ after, q.place ≠ entryPlace entry) {entry : Global × Nat} (member : entry ∈ entries) :
    ∃ before p rest, statuses ++ after = before ++ p :: rest ∧ Tells f entry p ∧ ∀ q ∈ rest, q.place ≠ p.place := by
  induction told with
  | nil => cases member
  | @cons first p entries statuses here tail ih =>
    obtain ⟨head, pairs⟩ := List.pairwise_cons.mp apart
    rcases List.mem_cons.mp member with rfl | later
    · refine ⟨[], p, statuses ++ after, rfl, here, fun q inside => ?_⟩
      rw [here.place]
      rcases List.mem_append.mp inside with status | last
      · obtain ⟨other, among, place⟩ := toldPlace tail status
        rw [place]
        exact head other among
      · exact others _ List.mem_cons_self q last
    · obtain ⟨before, p', rest, split, tells, last⟩ := ih pairs
        (fun other inside => others other (List.mem_cons_of_mem first inside)) later
      refine ⟨p :: before, p', rest, ?_, tells, last⟩
      rw [List.cons_append, split]
      rfl

/- The copies of the status packets, but for their headers and what moves. -/
structure Mirrors (b : Board F) (f : State F) (m : Memory) : Prop where
  epoch : load16 m (OrazioClient.endEpoch + 2) = f.globalSeq
  number : ∀ entry ∈ periodicPackets b f, load16 m (entryPlace entry + 2) = f.globalSeq
  bytes : ∀ entry ∈ periodicPackets b f, ∀ a, 4 ≤ a → a < entry.1.size.toNat → ¬ Moving entry.1 a →
    m (entryPlace entry + a) = f.globals entry.1 (entry.2 + a)

theorem bodyBehind (p : EpochPacket) (seq : PacketSeq) {a : Nat} (low : 4 ≤ a) : (p.body seq).getD a 0 = (p.body 0).getD a 0 := by
  obtain ⟨i, rfl⟩ : ∃ i, a = i + 4 := ⟨a - 4, by omega⟩
  rfl

theorem depositedMirrors {e : Epoch} (told : TellsEpoch b f e) {entry : Global × Nat} (member : entry ∈ periodicPackets b f)
    {a : Nat} (low : 4 ≤ a) (high : a < entry.1.size.toNat) (still : ¬ Moving entry.1 a) :
    deposited seq e.all m (entryPlace entry + a) = f.globals entry.1 (entry.2 + a) := by
  obtain ⟨answers, statuses, last, packets, tells, messages⟩ := told.told
  have others : ∀ entry ∈ periodicPackets b f, ∀ q ∈ last ++ [endOfEpoch], q.place ≠ entryPlace entry := by
    intro entry inside q after
    obtain ⟨message, final⟩ := statusAlone entry ((periodicSublist b f).subset inside)
    rcases List.mem_append.mp after with said | closed
    · rw [placeAlone (messages q said) rfl]
      exact message
    · rw [List.mem_singleton.mp closed]
      exact final
  obtain ⟨before, p, rest, split, tell, only⟩ := toldLast tells (periodicApart b f) others member
  have all : e.all = (answers ++ before) ++ p :: rest := by
    rw [Epoch.all, packets, List.append_assoc, List.append_assoc, split, List.append_assoc]
  have inside : a < p.op.size.toNat := by
    rw [tell.op]
    exact high
  have place : p.place = entryPlace entry := tell.place
  rw [all, ← place, depositedLast _ _ only inside, bodyBehind p seq low]
  exact tell.bytes a low high still

end Deposits

/-! The two together. -/

section Mirrored
variable {b : Board F}

theorem toldMember {f : State F} {e : Epoch} (told : TellsEpoch b f e) {entry : Global × Nat}
    (member : entry ∈ periodicPackets b f) : ∃ p ∈ e.packets, p.op = receivedAs entry.1 ∧ p.place = entryPlace entry := by
  obtain ⟨answers, statuses, last, packets, tells, -⟩ := told.told
  have others : ∀ entry ∈ periodicPackets b f, ∀ q ∈ ([] : List EpochPacket), q.place ≠ entryPlace entry :=
    fun _ _ _ none => nomatch none
  obtain ⟨before, p, rest, split, tell, -⟩ := toldLast tells (periodicApart b f) others member
  refine ⟨p, ?_, tell.op, tell.place⟩
  have here : p ∈ statuses := by
    rw [← List.append_nil statuses, split]
    exact List.mem_append_right _ List.mem_cons_self
  rw [packets]
  exact List.mem_append_right _ (List.mem_append_left _ here)

end Mirrored

/- Two cycles; the wheels have moved before each of them. -/
def movingTurn (encoder : UInt16) (packets : List (List UInt8)) : Turn :=
  ⟨fun point => if point = 0 then List.replicate 2 fun _ => encoder else [], fun _ => 0, packetLine packets⟩

def movingTurns : List Turn := [movingTurn 7 [systemParamPacket], movingTurn 12 []]

def standing : Main Rat := loop bench (boot bench buffers (PacketHandler.blankHandler _) (fun _ => 0) fun _ => 0xFF) []

def movingLine : Serial := ⟨OrazioClient.onLine (telemetry bench standing movingTurns), List.replicate 508 1, []⟩

def following : OrazioClient := OrazioClient.init (PacketHandler.blankHandler ClientOp) (fun _ => 0) movingLine

theorem followingLine : following.fd = movingLine := by
  unfold following OrazioClient.init
  rfl

end OrazioLogger.Firmware
