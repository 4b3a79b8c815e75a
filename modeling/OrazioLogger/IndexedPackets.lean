import Mathlib.Data.List.Induction
import OrazioLogger.ClientCalls
import OrazioLogger.ClientLocks

/-! Joint packets go to their entry of an array by the index they carry. The client
is one flat record here, up to an address `last`: a copy behind the array lands on what follows. -/
namespace OrazioLogger.OrazioClient
open ByteMemory OrazioPackets PacketHandler

def feed (cl : OrazioClient) : List UInt8 → OrazioClient
  | [] => cl
  | c :: rest => feed (rxByte cl c).2 rest

theorem feedAppend (cl : OrazioClient) (first later : List UInt8) : feed cl (first ++ later) = feed (feed cl first) later := by
  induction first generalizing cl with
  | nil => rfl
  | cons c rest ih => exact ih _

def index (body : List UInt8) : Nat := (body.getD 4 0).toNat

/- The byte `c` completes a packet of `op`, which stands in the packet buffer with these bytes. -/
structure Completes (cl : OrazioClient) (c : UInt8) (op : ClientOp) (body : List UInt8) : Prop where
  call : calls (PacketHandler.rxByte operation cl.packetHandler ⟨cl.memory, ()⟩ c).trace = [(op, packetBuffer, cl.memory)]
  stored : load cl.memory packetBuffer op.size.toNat = body

/- Within the record nothing has changed but the entry of the packet's index. -/
def EntryOnly (last : Addr) (op : ClientOp) (body : List UInt8) (m k : Memory) : Prop :=
  ∀ a, a < last → k a ≠ m a → index body < numJointsMax ∧ Inside (op.dest + body.length * index body) body.length a

/- The index is one of the array, or what the copy meets in the record are the packet's own bytes. -/
def StaysHome (last : Addr) (op : ClientOp) (body : List UInt8) (m : Memory) : Prop :=
  index body < numJointsMax ∨
    ∀ a, a < last → Inside (destination op body) body.length a → m a = body.getD (a - destination op body) 0

theorem entryOnlyCopied {last : Addr} {op : ClientOp} {body : List UInt8} {m : Memory} (indexed : op.indexed = true) :
    EntryOnly last op body m (copied op body m) ↔ StaysHome last op body m := by
  have here : destination op body = op.dest + body.length * index body := if_pos indexed
  constructor
  · intro only
    by_cases low : index body < numJointsMax
    · exact Or.inl low
    · refine Or.inr fun a below inside => ?_
      by_contra other
      refine low (only a below ?_).1
      rw [copied, if_pos inside]
      exact Ne.symm other
  · rintro stays a below changed
    have inside : Inside (destination op body) body.length a := by
      by_contra outside
      exact changed (if_neg outside)
    rw [copied, if_pos inside] at changed
    rcases stays with low | same
    · rw [here] at inside
      exact ⟨low, inside⟩
    · exact absurd (same a below inside).symm changed

section Stream
variable {cl : OrazioClient} {c : UInt8}

theorem rxByteSound (sound : Sound cl) (c : UInt8) : Sound (rxByte cl c).2 := by
  obtain ⟨seen, receiving⟩ := sound
  obtain ⟨next, here⟩ := turn receiving c
  cases here with
  | quiet _ _ _ after => exact ⟨next, after⟩
  | packet _ _ _ _ _ _ _ after => exact ⟨[], after⟩

theorem feedSound (sound : Sound cl) (bytes : List UInt8) : Sound (feed cl bytes) := by
  induction bytes generalizing cl with
  | nil => exact sound
  | cons c rest ih => exact ih (rxByteSound sound c)

/- A byte changes the packet buffer, or it completes a packet, which is copied. -/
theorem rxByteCopies (sound : Sound cl) (c : UInt8) :
    (∀ a, ¬ InBuffer a → (rxByte cl c).2.memory a = cl.memory a) ∨
      ∃ op body, Completes cl c op body ∧ (rxByte cl c).2.memory = copied op body cl.memory := by
  obtain ⟨seen, receiving⟩ := sound
  obtain ⟨next, here⟩ := turn receiving c
  cases here with
  | quiet _ _ memory => exact Or.inl memory
  | @packet op rest _ _ _ stored call memory => exact Or.inr ⟨op, op.type :: op.size :: rest, ⟨call, stored⟩, memory⟩

theorem completesCopies (sound : Sound cl) {op : ClientOp} {body : List UInt8} (completes : Completes cl c op body) :
    (rxByte cl c).2.memory = copied op body cl.memory := by
  obtain ⟨seen, receiving⟩ := sound
  obtain ⟨next, here⟩ := turn receiving c
  cases here with
  | quiet _ noCall =>
    rw [completes.call] at noCall
    contradiction
  | @packet op' rest _ _ _ stored call memory =>
    obtain rfl : op = op' := by simpa using completes.call.symm.trans call
    rw [memory, ← stored, completes.stored]

/- What a stream has changed are entries of the packets in it. -/
theorem streamStays {last : Addr} (sound : Sound cl) (bytes : List UInt8)
    (home : ∀ earlier c op body, earlier ++ [c] <+: bytes → Completes (feed cl earlier) c op body → op.indexed = true →
      StaysHome last op body (feed cl earlier).memory)
    {a : Addr} (below : a < last) (outside : ¬ InBuffer a) (changed : (feed cl bytes).memory a ≠ cl.memory a) :
    ∃ earlier c op body, earlier ++ [c] <+: bytes ∧ Completes (feed cl earlier) c op body ∧
      Inside (destination op body) body.length a ∧ (op.indexed = true → index body < numJointsMax) := by
  induction bytes using List.reverseRecOn with
  | nil => exact absurd rfl changed
  | append_singleton bytes c ih =>
    have shorter := List.prefix_append bytes [c]
    by_cases before : (feed cl bytes).memory a = cl.memory a
    · have step : feed cl (bytes ++ [c]) = (rxByte (feed cl bytes) c).2 := feedAppend cl bytes [c]
      rw [step, ← before] at changed
      rcases rxByteCopies (feedSound sound bytes) c with kept | ⟨op, body, completes, memory⟩
      · exact absurd (kept a outside) changed
      · have inside : Inside (destination op body) body.length a := by
          by_contra elsewhere
          exact changed ((congrFun memory a).trans (if_neg elsewhere))
        refine ⟨bytes, c, op, body, List.prefix_rfl, completes, inside, fun indexed => ?_⟩
        have only := (entryOnlyCopied indexed).mpr (home bytes c op body List.prefix_rfl completes indexed)
        rw [memory] at changed
        exact (only a below changed).1
    · obtain ⟨earlier, x, op, body, inside, rest⟩ :=
        ih (fun earlier x op body inside => home earlier x op body (inside.trans shorter)) before
      exact ⟨earlier, x, op, body, inside.trans shorter, rest⟩

end Stream

theorem indexedPacketsStay (blank : PacketHandler ClientOp) (memory : Memory) (fd : Serial) (requests : List Call)
    (foreign : ∀ c ∈ requests, Foreign c) (cl : OrazioClient) (reached : perform (init blank memory fd) requests = .ok cl)
    (last : Addr) :
    (∀ bytes c op body, Completes (feed cl bytes) c op body → op.indexed = true →
      (EntryOnly last op body (feed cl bytes).memory (feed cl (bytes ++ [c])).memory ↔
        StaysHome last op body (feed cl bytes).memory)) ∧
    ∀ bytes, (∀ earlier c op body, earlier ++ [c] <+: bytes → Completes (feed cl earlier) c op body → op.indexed = true →
        StaysHome last op body (feed cl earlier).memory) →
      ∀ a, a < last → ¬ InBuffer a → (feed cl bytes).memory a ≠ cl.memory a →
        ∃ earlier c op body, earlier ++ [c] <+: bytes ∧ Completes (feed cl earlier) c op body ∧
          Inside (destination op body) body.length a ∧ (op.indexed = true → index body < numJointsMax) := by
  have kept := performSound foreign (initSound blank memory fd)
  rw [reached] at kept
  have sound : Sound cl := kept
  refine ⟨fun bytes c op body completes indexed => ?_, fun bytes home a below outside changed =>
    streamStays sound bytes home below outside changed⟩
  rw [feedAppend]
  change EntryOnly last op body _ (rxByte (feed cl bytes) c).2.memory ↔ _
  rw [completesCopies (feedSound sound bytes) completes]
  exact entryOnlyCopied indexed

def statusOfJoint (i : UInt8) : List UInt8 := [4, 16, 0, 0, i, 9, 9, 9, 9, 9, 9, 9, 9, 9, 9, 9]

def jointStatusOp : ClientOp := ⟨jointStatusPacketId, sizeofJointStatusPacket, true, jointStatus⟩

/- The status of a fifth joint lands on the parameters of the drive. -/
theorem fifthJointOverwrites :
    index (statusOfJoint 4) = numJointsMax ∧ ¬ InBuffer driveParam ∧ driveParam < clientEnd ∧
    (feed freshClient (frame (statusOfJoint 4))).memory driveParam = 4 ∧ freshClient.memory driveParam = 0 := by
  decide +kernel

theorem thirdJointStays :
    let received := 0xAA :: 0x55 :: statusOfJoint 2
    EntryOnly clientEnd jointStatusOp (statusOfJoint 2) (feed freshClient received).memory
      (feed freshClient (received ++ [xorSum (statusOfJoint 2)])).memory :=
  ((indexedPacketsStay (blankHandler ClientOp) (fun _ => 0) ⟨[], [], []⟩ [] (by simp) freshClient rfl clientEnd).1
    (0xAA :: 0x55 :: statusOfJoint 2) (xorSum (statusOfJoint 2)) jointStatusOp (statusOfJoint 2) ⟨rfl, by decide +kernel⟩ rfl).mpr
      (Or.inl (by decide))

end OrazioLogger.OrazioClient
