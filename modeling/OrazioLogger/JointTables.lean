import OrazioLogger.EpochSnapshot
import OrazioLogger.IndexedPackets

/-! The tables of the joints and what lies behind them. A packet about a joint that the client
has a place for is copied in front of the packet buffer, so that the fields of the record behind
the tables, here apart from the memory, stay as the client left them. -/
namespace OrazioLogger.OrazioClient
open ByteMemory OrazioPackets PacketHandler Outcome

/- A packet about a joint that the client has a place for. -/
def InTable (body : List UInt8) : Prop :=
  ∀ op ∈ installedOps, body.head? = some op.type → op.indexed = true → index body < numJointsMax

instance (body) : Decidable (InTable body) := by unfold InTable; infer_instance

/- What is copied reaches neither the packet buffer nor what is behind it. -/
def Confined (body : List UInt8) : Prop :=
  ∀ op ∈ installedOps, body.head? = some op.type → destination op body + body.length ≤ packetBuffer

/- A packet as the client receives it. -/
def Shaped (body : List UInt8) : Prop :=
  ∃ op ∈ installedOps, ∃ rest, body = op.type :: op.size :: rest ∧ rest.length + 2 = op.size.toNat

section Packets
variable {cl : OrazioClient} {seen body : List UInt8} {op : ClientOp}

theorem copiedInside (installed : op ∈ installedOps) (size : body.length = op.size.toNat)
    (inTable : op.indexed = true → index body < numJointsMax) : destination op body + body.length ≤ packetBuffer := by
  have member : ∀ i, i < (if op.indexed then numJointsMax else 1) → (op.dest + op.size.toNat * i, op.size.toNat) ∈ slots :=
    fun i inRange => List.mem_flatMap.mpr ⟨op, installed, List.mem_map.mpr ⟨i, List.mem_range.mpr inRange, rfl⟩⟩
  unfold destination
  rw [size]
  by_cases indexed : op.indexed = true
  · rw [if_pos indexed]
    exact slotsBelow _ (member (index body) (by rw [if_pos indexed]; exact inTable indexed))
  · rw [if_neg indexed]
    exact slotsBelow _ (member 0 (by rw [if_neg indexed]; decide))

theorem typesApart : ∀ op ∈ installedOps, ∀ other ∈ installedOps, op.type = other.type → op = other := by decide

theorem shapedConfined (shaped : Shaped body) (inTable : InTable body) : Confined body := by
  obtain ⟨received, known, rest, rfl, length⟩ := shaped
  intro op installed headed
  obtain rfl : received = op := typesApart received known op installed (Option.some.inj headed)
  exact copiedInside known length (inTable received known headed)

theorem decodedShaped (receiving : Receiving cl seen) (taken : List ReadOutcome) :
    ∀ body ∈ decodedPackets cl taken, Shaped body := by
  induction taken generalizing cl seen with
  | nil =>
    intro body none
    contradiction
  | cons outcome rest ih =>
    by_cases some : outcome.n ≠ 0
    · obtain ⟨-, -, called⟩ := decodingCons cl (rxByte cl outcome.c).2 outcome rest some rfl rfl
      obtain ⟨next, here⟩ := turn receiving outcome.c
      intro body member
      rw [decodedPackets, called, List.map_append] at member
      cases here with
      | quiet _ noCall _ after =>
        rw [noCall] at member
        exact ih after body member
      | @packet op payload installed size _ stored call _ _ after =>
        rcases List.mem_append.mp member with now | later
        · rw [call, List.map_singleton, List.mem_singleton] at now
          exact ⟨op, installed, payload, now.trans stored, size⟩
        · exact ih after body later
    · rw [decodedPackets, decodingSkip cl outcome rest some]
      exact ih receiving

/- The packets these outcomes of `read` complete. -/
def AllInTable (cl : OrazioClient) (reads : List ReadOutcome) : Prop := ∀ body ∈ decodedPackets cl reads, InTable body

def AllConfined (cl : OrazioClient) (reads : List ReadOutcome) : Prop := ∀ body ∈ decodedPackets cl reads, Confined body

instance (cl reads) : Decidable (AllInTable cl reads) := by unfold AllInTable; infer_instance

theorem soundConfined (sound : Sound cl) {reads : List ReadOutcome} (inTable : AllInTable cl reads) :
    AllConfined cl reads := by
  obtain ⟨seen, receiving⟩ := sound
  exact fun body member => shapedConfined (decodedShaped receiving reads body member) (inTable body member)

end Packets

/-! Sequences of calls, with what the line brings them. -/

/- What is said of the client before each call, and after the last. -/
def AtEachCall (holds : OrazioClient → Prop) : OrazioClient → List Call → Prop
  | cl, [] => holds cl
  | cl, c :: rest => holds cl ∧ ∀ next, call cl c = .ok next → AtEachCall holds next rest

def atEachCallDecidable (holds : OrazioClient → Prop) [DecidablePred holds] :
    (cl : OrazioClient) → (calls : List Call) → Decidable (AtEachCall holds cl calls)
  | cl, [] => inferInstanceAs (Decidable (holds cl))
  | cl, c :: rest =>
    match returned : call cl c with
    | .error _ => decidable_of_iff (holds cl) (by simp [AtEachCall, returned])
    | .ok next =>
      have : Decidable (AtEachCall holds next rest) := atEachCallDecidable holds next rest
      decidable_of_iff (holds cl ∧ AtEachCall holds next rest) (by simp [AtEachCall, returned])

instance (holds : OrazioClient → Prop) [DecidablePred holds] (cl : OrazioClient) (calls : List Call) :
    Decidable (AtEachCall holds cl calls) := atEachCallDecidable holds cl calls

/- The packets that are still to come on the line. -/
def LineInTable (cl : OrazioClient) : Prop := AllInTable cl cl.fd.reads

def LineConfined (cl : OrazioClient) : Prop := AllConfined cl cl.fd.reads

instance : DecidablePred LineInTable := fun cl => inferInstanceAs (Decidable (AllInTable cl cl.fd.reads))

theorem callsConfined {cl : OrazioClient} {calls : List Call} (foreign : ∀ c ∈ calls, Foreign c) (sound : Sound cl)
    (inTable : AtEachCall LineInTable cl calls) : AtEachCall LineConfined cl calls := by
  induction calls generalizing cl with
  | nil => exact soundConfined sound inTable
  | cons c rest ih =>
    refine ⟨soundConfined sound inTable.1, fun next returned => ?_⟩
    have soundNext := (callSound (foreign c List.mem_cons_self) sound).returned returned
    exact ih (fun other member => foreign other (List.mem_cons_of_mem c member)) soundNext (inTable.2 next returned)

/- While the packets read are about joints there is a place for, the mutexes are the client's own, and they
are released exactly when every index asked for is known by then. -/
theorem disciplinedWhenClear (blank : PacketHandler ClientOp) (memory : Memory) (fd : Serial) (calls : List Call)
    (foreign : ∀ c ∈ calls, Foreign c) (inTable : AtEachCall LineInTable (init blank memory fd) calls) :
    AtEachCall LineConfined (init blank memory fd) calls ∧
    (Disciplined (init blank memory fd) calls ↔ Clear (init blank memory fd) calls) := by
  have released : Released (init blank memory fd) := ⟨rfl, rfl⟩
  exact ⟨callsConfined foreign (initSound blank memory fd) inTable,
    clearOfDisciplined released, disciplinedOfClear released⟩

/- An epoch with the status of the second joint. -/
def jointEpoch : Serial :=
  { reads := onLine (frame (secondJoint.body 1) ++ frame (endOfEpoch.body 1)), writes := List.replicate 30 1, written := [] }

def jointListener : OrazioClient := init (blankHandler ClientOp) (fun _ => 0) jointEpoch

def drivingCalls : List Call := [.setBaseVelocity 1 0, .sync 1, .fill 2000 systemStatusPacketId, .get 2000]

theorem drivingDisciplined :
    (AtEachCall LineConfined jointListener drivingCalls ∧
      (Disciplined jointListener drivingCalls ↔ Clear jointListener drivingCalls)) ∧
    ((perform jointListener drivingCalls).toOption.map fun cl => (cl.writeMutex, cl.readMutex)) = some (false, false) ∧
    decodedPackets jointListener jointEpoch.reads = [secondJoint.body 1, endOfEpoch.body 1] :=
  ⟨disciplinedWhenClear (blankHandler ClientOp) (fun _ => 0) jointEpoch drivingCalls (by decide) (by decide +kernel),
    by decide +kernel, by decide +kernel⟩

/- A joint status is asked for before the configuration has told how many joints there are. -/
def earlyGet : List Call := [.fill 1000 jointStatusPacketId, .get 1000, .sync 1]

theorem earlyGetLocks :
    AtEachCall LineInTable freshClient earlyGet ∧ ¬ Disciplined freshClient earlyGet := by
  refine ⟨by decide +kernel, fun disciplined => ?_⟩
  have locked : perform freshClient earlyGet = .error .locked := by rfl
  exact disciplined.unblocked locked

end OrazioLogger.OrazioClient
