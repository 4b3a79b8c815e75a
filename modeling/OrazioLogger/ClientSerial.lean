import Mathlib.Algebra.Order.Ring.Int
import OrazioLogger.JointTables

/-! What the client does with the outcomes of `read` and `write`: the two loops with the bytes they pass on. -/
namespace OrazioLogger.OrazioClient
open ByteMemory OrazioPackets PacketHandler RingBuffer Outcome

/- One turn of the loop of `_readPacket`. -/
def readTurn (cl : OrazioClient) (outcome : ReadOutcome) : PacketStatus × OrazioClient :=
  let (status, next) := if outcome.n ≠ 0 then rxByte cl outcome.c else (.success, cl)
  (status, { next with rxBytes := next.rxBytes + outcome.n })

/- That loop with the outcomes it takes and the bytes it passes to `PacketHandler_rxByte`. -/
structure ReadRun where
  client : OrazioClient
  fed : List UInt8
  outcomes : List ReadOutcome

def readRun (cl : OrazioClient) : List ReadOutcome → ReadRun
  | [] => ⟨cl, [], []⟩
  | outcome :: rest =>
    let (status, next) := readTurn cl outcome
    let fed := if outcome.n ≠ 0 then [outcome.c] else []
    if status = .syncChecksum then ⟨next, fed, [outcome]⟩
    else
      let later := readRun next rest
      ⟨later.client, fed ++ later.fed, outcome :: later.outcomes⟩

/- The loop of `_flushBuffer` with each byte it takes from the ring and what `write` returned for it. -/
structure FlushRun where
  client : OrazioClient
  written : List (UInt8 × Int)

def flushRun (cl : OrazioClient) : List Int → FlushRun
  | [] => ⟨cl, []⟩
  | res :: rest =>
    if cl.packetHandler.tx.size = 0 then ⟨cl, []⟩
    else
      let (c, handler) := cl.packetHandler.txByte
      let later := flushRun { cl with
        packetHandler := handler
        fd := { cl.fd with written := cl.fd.written ++ [c] }
        txBytes := cl.txBytes + res } rest
      ⟨later.client, (c, res) :: later.written⟩

/- A byte counts if the call for it returned 1. -/
def readBytes (outcomes : List ReadOutcome) : List UInt8 := (outcomes.filter fun o => o.n = 1).map ReadOutcome.c

def writtenBytes (written : List (UInt8 × Int)) : List UInt8 := (written.filter fun w => w.2 = 1).map Prod.fst

structure ReadFaithful (cl : OrazioClient) (reads : List ReadOutcome) : Prop where
  fed : (readRun cl reads).fed = readBytes (readRun cl reads).outcomes
  counted : (readRun cl reads).client.rxBytes = cl.rxBytes + (readBytes (readRun cl reads).outcomes).length

structure FlushFaithful (cl : OrazioClient) (writes : List Int) : Prop where
  removed : waiting cl.packetHandler =
    writtenBytes (flushRun cl writes).written ++ waiting (flushRun cl writes).client.packetHandler
  counted : (flushRun cl writes).client.txBytes = cl.txBytes + (writtenBytes (flushRun cl writes).written).length

section Runs
variable {cl later : OrazioClient}

theorem readTurnCounts (cl : OrazioClient) (outcome : ReadOutcome) :
    (readTurn cl outcome).2.rxBytes = cl.rxBytes + outcome.n := by
  unfold readTurn
  by_cases some : outcome.n ≠ 0
  · simp only [if_pos some]
    rfl
  · simp only [if_neg some]

theorem readLoopTurn (cl : OrazioClient) (outcome : ReadOutcome) (rest : List ReadOutcome) :
    readLoop cl (outcome :: rest) =
      if (readTurn cl outcome).1 = .syncChecksum then
        .ok { (readTurn cl outcome).2 with fd := { (readTurn cl outcome).2.fd with reads := rest } }
      else readLoop (readTurn cl outcome).2 rest := by
  unfold readTurn
  rw [readLoop]

/- `_readPacket` goes as its run does: it returns behind the outcomes taken, or takes all there are. -/
def ReadsAs (reads : List ReadOutcome) (run : ReadRun) : Except Halt OrazioClient → Prop
  | .ok later => ∃ rest, reads = run.outcomes ++ rest ∧
      later = { run.client with fd := { run.client.fd with reads := rest } }
  | .error _ => reads = run.outcomes

theorem readRunReturns (cl : OrazioClient) (reads : List ReadOutcome) :
    ReadsAs reads (readRun cl reads) (readLoop cl reads) := by
  induction reads generalizing cl with
  | nil => exact rfl
  | cons outcome rest ih =>
    rw [readLoopTurn]
    simp only [readRun]
    split
    · exact ⟨rest, rfl, rfl⟩
    · have later := ih (readTurn cl outcome).2
      cases returned : readLoop (readTurn cl outcome).2 rest with
      | ok next =>
        rw [returned] at later
        obtain ⟨left, split, same⟩ := later
        exact ⟨left, by rw [List.cons_append, ← split], same⟩
      | error reason =>
        rw [returned] at later
        exact congrArg (outcome :: ·) later

/- `_flushBuffer` likewise. -/
def FlushesAs (writes : List Int) (run : FlushRun) : Except Halt OrazioClient → Prop
  | .ok later => ∃ rest, writes = run.written.map Prod.snd ++ rest ∧
      later = { run.client with fd := { run.client.fd with writes := rest } }
  | .error _ => writes = run.written.map Prod.snd

theorem flushRunReturns (cl : OrazioClient) (writes : List Int) :
    FlushesAs writes (flushRun cl writes) (flushLoop cl writes) := by
  induction writes generalizing cl with
  | nil =>
    unfold flushLoop
    split
    · exact ⟨[], rfl, rfl⟩
    · exact rfl
  | cons res rest ih =>
    unfold flushLoop flushRun
    split
    · exact ⟨res :: rest, rfl, rfl⟩
    · let next : OrazioClient := { cl with
        packetHandler := cl.packetHandler.txByte.2
        fd := { cl.fd with written := cl.fd.written ++ [cl.packetHandler.txByte.1] }
        txBytes := cl.txBytes + res }
      have later := ih next
      change FlushesAs _ ⟨(flushRun next rest).client, (cl.packetHandler.txByte.1, res) :: (flushRun next rest).written⟩
        (flushLoop next rest)
      cases returned : flushLoop next rest with
      | ok last =>
        rw [returned] at later
        obtain ⟨left, split, same⟩ := later
        exact ⟨left, congrArg (res :: ·) split, same⟩
      | error reason =>
        rw [returned] at later
        exact congrArg (res :: ·) later

theorem bytesReadCons (o : ReadOutcome) (rest : List ReadOutcome) :
    bytesRead (o :: rest) = (if o.n ≠ 0 then [o.c] else []) ++ bytesRead rest := by
  by_cases some : o.n ≠ 0
  · rw [if_pos some]
    exact List.filterMap_cons_some (if_pos some)
  · rw [if_neg some]
    exact List.filterMap_cons_none (if_neg some)

theorem readBytesCons (o : ReadOutcome) (rest : List ReadOutcome) :
    readBytes (o :: rest) = (if o.n = 1 then [o.c] else []) ++ readBytes rest := by
  unfold readBytes
  by_cases one : o.n = 1 <;> simp [one]

/- Every outcome but 0 feeds a byte, and the counter adds up what the calls returned. -/
theorem readRunFeeds (cl : OrazioClient) (reads : List ReadOutcome) :
    (readRun cl reads).fed = bytesRead (readRun cl reads).outcomes ∧
      (readRun cl reads).client.rxBytes = cl.rxBytes + ((readRun cl reads).outcomes.map ReadOutcome.n).sum := by
  induction reads generalizing cl with
  | nil => exact ⟨rfl, (Int.add_zero _).symm⟩
  | cons outcome rest ih =>
    simp only [readRun]
    split
    · exact ⟨(List.append_nil _).symm.trans (bytesReadCons outcome []).symm, by rw [readTurnCounts, List.map_singleton, List.sum_singleton]⟩
    · obtain ⟨fed, counted⟩ := ih (readTurn cl outcome).2
      exact ⟨by rw [fed, bytesReadCons], by rw [counted, readTurnCounts, List.map_cons, List.sum_cons, Int.add_assoc]⟩

theorem flushRunTakes (ring : Valid packetSizeMax cl.packetHandler.tx) (writes : List Int) :
    waiting cl.packetHandler =
      (flushRun cl writes).written.map Prod.fst ++ waiting (flushRun cl writes).client.packetHandler ∧
    (flushRun cl writes).client.txBytes = cl.txBytes + ((flushRun cl writes).written.map Prod.snd).sum := by
  induction writes generalizing cl with
  | nil => exact ⟨rfl, (Int.add_zero _).symm⟩
  | cons res rest ih =>
    unfold flushRun
    split
    · exact ⟨rfl, (Int.add_zero _).symm⟩
    · rename_i some
      obtain ⟨takes, valid, -⟩ := txByteTakes ring some
      let next : OrazioClient := { cl with
        packetHandler := cl.packetHandler.txByte.2
        fd := { cl.fd with written := cl.fd.written ++ [cl.packetHandler.txByte.1] }
        txBytes := cl.txBytes + res }
      obtain ⟨removed, counted⟩ := @ih next valid
      refine ⟨?_, ?_⟩
      · rw [takes, List.map_cons, List.cons_append]
        exact congrArg (_ :: ·) removed
      · rw [List.map_cons, List.sum_cons, ← Int.add_assoc]
        exact counted

end Runs

/-! When the bytes passed on are those that came through. -/

theorem fedWhenRead (outcomes : List ReadOutcome) :
    bytesRead outcomes = readBytes outcomes ↔ ∀ o ∈ outcomes, o.n = 0 ∨ o.n = 1 := by
  have fewer : ∀ outcomes, (readBytes outcomes).length ≤ (bytesRead outcomes).length := by
    intro outcomes
    induction outcomes with
    | nil => exact Nat.le_refl 0
    | cons o rest ih =>
      have here : (if o.n = 1 then [o.c] else []).length ≤ (if o.n ≠ 0 then [o.c] else []).length := by
        split
        · rename_i one
          rw [if_pos (by omega)]
        · exact Nat.zero_le _
      rw [readBytesCons, bytesReadCons, List.length_append, List.length_append]
      exact Nat.add_le_add here ih
  induction outcomes with
  | nil => simp [bytesRead, readBytes]
  | cons o rest ih =>
    have fineRest : bytesRead rest = readBytes rest ↔ ∀ o ∈ rest, o.n = 0 ∨ o.n = 1 := ih
    rw [List.forall_mem_cons, bytesReadCons, readBytesCons]
    by_cases one : o.n = 1
    · rw [if_pos (by omega), if_pos one, List.append_cancel_left_eq, fineRest]
      exact ⟨fun fine => ⟨Or.inr one, fine⟩, And.right⟩
    by_cases zero : o.n = 0
    · rw [if_neg (by omega), if_neg one, List.append_cancel_left_eq, fineRest]
      exact ⟨fun fine => ⟨Or.inl zero, fine⟩, And.right⟩
    · rw [if_pos zero, if_neg one]
      refine iff_of_false (fun same => ?_) fun both => both.1.elim zero one
      have lengths := congrArg List.length same
      have less := fewer rest
      simp only [List.singleton_append, List.length_cons, List.nil_append] at lengths
      omega

theorem readSum {outcomes : List ReadOutcome} (fine : ∀ o ∈ outcomes, o.n = 0 ∨ o.n = 1) :
    (outcomes.map ReadOutcome.n).sum = (readBytes outcomes).length := by
  induction outcomes with
  | nil => rfl
  | cons o rest ih =>
    obtain ⟨here, later⟩ := List.forall_mem_cons.mp fine
    rw [List.map_cons, List.sum_cons, ih later, readBytesCons, List.length_append]
    rcases here with zero | one
    · simp [zero]
    · simp [one]

theorem removedWhenWritten (written : List (UInt8 × Int)) :
    written.map Prod.fst = writtenBytes written ↔ ∀ w ∈ written, w.2 = 1 := by
  constructor
  · intro same
    have lengths := congrArg List.length same
    unfold writtenBytes at lengths
    rw [List.length_map, List.length_map] at lengths
    simpa using List.length_filter_eq_length_iff.mp lengths.symm
  · intro ones
    unfold writtenBytes
    rw [List.filter_eq_self.mpr (by simpa using ones)]

theorem writtenSum {written : List (UInt8 × Int)} (ones : ∀ w ∈ written, w.2 = 1) :
    (written.map Prod.snd).sum = (writtenBytes written).length := by
  rw [← (removedWhenWritten written).mpr ones, List.length_map]
  induction written with
  | nil => rfl
  | cons w rest ih =>
    obtain ⟨here, later⟩ := List.forall_mem_cons.mp ones
    rw [List.map_cons, List.sum_cons, ih later, here, List.length_cons]
    omega

/- A request in the ring of a fresh client, on a line with these outcomes. -/
def requesting (reads : List ReadOutcome) (writes : List Int) : OrazioClient :=
  let fresh := init (blankHandler ClientOp) (fun _ => 0) ⟨reads, writes, []⟩
  let memory := store (store fresh.memory 1000 paramControlPacketId) 1001 sizeofParamControlPacket
  (enqueuePacket { fresh with memory := memory } 1000).2

theorem requestingSound (reads : List ReadOutcome) (writes : List Int) : Sound (requesting reads writes) := by
  have fresh := initSound (blankHandler ClientOp) (fun _ => 0) ⟨reads, writes, []⟩
  refine enqueuePacketSound (by decide) (fresh.withMemory rfl ?_)
  exact ((SameBelow.refl _ _).store (by decide) _).store (by decide) _

def quietLine : OrazioClient := requesting (⟨0, 9⟩ :: onLine (frame (secondJoint.body 1))) (List.replicate 12 1)

end OrazioLogger.OrazioClient
