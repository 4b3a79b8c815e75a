import OrazioLogger.ReportedOutcome

/-! The joint index of a packet: which values are refused before the copy, and what a refusal leaves. -/
namespace OrazioLogger.Firmware
open ByteMemory RingBuffer OrazioPackets OrazioComm
open OrazioClient (load16 store16)

variable {F : Type}

/- The response, whose header is the one it was given. -/
theorem sendResponseHanded {o : Outside F} (ring : Valid packetSizeMax o.baseHandler.tx) (p : Addr) (result : PacketStatus) :
    Handed o (sendResponse p result o) (frameAt o.app .response 0)
      (bodyAt (o.app.set .response (responseTo p result o.memory (o.app.globals .response))) .response 0) := by
  have sent := sendPacketHanded
    (o := withApp o (o.app.set .response (responseTo p result o.memory (o.app.globals .response)))) ring .response 0
  have size : frameAt (o.app.set .response (responseTo p result o.memory (o.app.globals .response))) .response 0 =
      frameAt o.app .response 0 := by
    rw [frameAt, setSame, responseToOutside _ _ _ _ (by omega), frameAt]
  have same : frameAt (withApp o (o.app.set .response (responseTo p result o.memory (o.app.globals .response)))).app
      .response 0 = frameAt o.app .response 0 := size
  rw [same] at sent
  exact ⟨sent.ring, sent.handler, sent.waiting, sent.length, sent.results⟩

/-! Joint control and joint parameter packets. -/

/- `tx_packets`, `tx_packet_errors` and `rx_seq`, and the response behind its type and size. -/
def RefusalWrites : Global → Nat → Prop
  | .systemStatus, a => 12 ≤ a ∧ a < 16 ∨ a = 20 ∨ a = 21
  | .response, a => 2 ≤ a ∧ a < 8
  | _, _ => False

def errorResponse (o : Outside F) (p : Addr) : List UInt8 :=
  responseBody o.app.globalSeq (o.memory p) (load16 o.memory (p + 2)) .genericError

/- Nothing happens but the error response, which the ring takes if it has room. -/
structure IndexRefused (b : Board F) (args : PacketHandlerArgs) (p : Addr) (o : Outside F) : Prop where
  status : (handlePacket b args p o).1 = .genericError
  response : Handed o (handlePacket b args p o).2 (frameSize .response) (errorResponse o p)
  memory : (handlePacket b args p o).2.memory = o.memory
  same : (handlePacket b args p o).2.app = { o.app with
    globals := (handlePacket b args p o).2.app.globals, sendResults := (handlePacket b args p o).2.app.sendResults }
  globals : SameOutside RefusalWrites o.app (handlePacket b args p o).2.app

structure IndexChecked (b : Board F) (args : PacketHandlerArgs) (p : Addr) (o : Outside F) : Prop where
  copied : refused args o.memory p = false → 0 ≤ copyOffset args o.memory p ∧
    copyOffset args o.memory p + (o.memory (p + 1)).toNat ≤ (dest args).extent
  refused : numJoints ≤ (o.memory (p + 4)).toNat → IndexRefused b args p o

section Refusal
variable {b : Board F} {args : PacketHandlerArgs} {p : Addr} {o : Outside F}

theorem sendResponseWrites (result : PacketStatus) (o : Outside F) :
    SameOutside RefusalWrites o.app (sendResponse p result o).app := by
  have filled : SameOutside RefusalWrites o.app
      (o.app.set .response (responseTo p result o.memory (o.app.globals .response))) :=
    (SameOutside.refl o.app).set fun a outside => responseToOutside p result _ _ fun inside =>
      outside ⟨by omega, inside.2⟩
  exact filled.trans (sendPacketWrites _ ⟨by omega, by omega⟩ ⟨by omega, by omega⟩ fun a low high => Or.inl ⟨low, high⟩)

theorem responseFrame {sonar : Bool} (intact : Intact sonar o) : frameAt o.app .response 0 = frameSize .response := by
  rw [frameAt, (intact.marked 1 (by decide)).globals .response 0 (.single (by decide))]
  rfl

theorem responseBytes {sonar : Bool} (intact : Intact sonar o) (p : Addr) (result : PacketStatus) :
    bodyAt (o.app.set .response (responseTo p result o.memory (o.app.globals .response))) .response 0 =
      responseBody o.app.globalSeq (o.memory p) (load16 o.memory (p + 2)) result := by
  have keeps : Keeps sonar o.app (o.app.set .response (responseTo p result o.memory (o.app.globals .response))) :=
    responseKeeps p result o.memory o.app
  have size := stampedHeader (k := 1)
    (o := withApp o (o.app.set .response (responseTo p result o.memory (o.app.globals .response)))) (by decide)
    (keeps.marked 1 (by decide) (intact.marked 1 (by decide))) (.single (g := .response) (by decide))
  rw [← responseStamped intact.marked p result]
  exact congrArg (fun n : UInt8 => load _ 0 n.toNat) size

theorem refusedIndex (indexed : maxIndex args ≠ none) (memory : Memory) (p : Addr) :
    refused args memory p = true ↔ numJoints ≤ (memory (p + 4)).toNat ∧ memory (p + 4) < 128 := by
  have most : maxIndex args = some (numJoints : Int) := by cases args <;> first | rfl | exact absurd rfl indexed
  unfold refused index
  rw [most]
  simp only [decide_eq_true_eq]
  unfold signed8
  have small := UInt8.toNat_lt (memory (p + 4))
  split
  · rename_i low
    rw [ge_iff_le, Nat.cast_le]
    exact ⟨fun large => ⟨large, low⟩, fun both => both.1⟩
  · rename_i high
    refine iff_of_false ?_ fun both => high both.2
    simp only [numJoints]
    omega

theorem indexRefused (intact : Intact b.sonar o) (taken : refused args o.memory p = true) : IndexRefused b args p o := by
  have numbered : SameOutside RefusalWrites o.app (setRxSeq o.memory p o.app) :=
    (SameOutside.refl o.app).setWord _ (Or.inr (Or.inl rfl)) (Or.inr (Or.inr rfl))
  have ready : Intact b.sonar (withApp o (setRxSeq o.memory p o.app)) :=
    ⟨intact.ring, fun k low => (setRxSeqKeeps o.memory p o.app).marked k low (intact.marked k low)⟩
  have only := sendResponseOnly p .genericError (withApp o (setRxSeq o.memory p o.app))
  refine ⟨?_, ?_, ?_, ?_, ?_⟩ <;> rw [handlePacketRefused taken]
  · have sent := sendResponseHanded intact.ring p .genericError (o := withApp o (setRxSeq o.memory p o.app))
    rw [responseFrame ready, responseBytes ready] at sent
    exact ⟨sent.ring, sent.handler, sent.waiting, sent.length, sent.results⟩
  · exact only.memory
  · exact only.same
  · exact numbered.trans (sendResponseWrites .genericError _)

theorem jointIndexChecked (intact : Intact b.sonar o) (indexed : maxIndex args ≠ none)
    (sized : o.memory (p + 1) = argsSize args) : IndexChecked b args p o ↔ o.memory (p + 4) < 128 := by
  have most : maxIndex args = some (numJoints : Int) := by cases args <;> first | rfl | exact absurd rfl indexed
  have offset : copyOffset args o.memory p = signed8 (o.memory (p + 4)) * (argsSize args).toNat := by
    rw [copyOffset, index, most, sized]
  have extent : (dest args).extent = numJoints * (argsSize args).toNat := by
    cases args <;> first | rfl | exact absurd rfl indexed
  have positive : 0 < (argsSize args).toNat := by cases args <;> decide
  constructor
  · intro checked
    by_contra high
    have taken : refused args o.memory p = false := by
      rw [← Bool.not_eq_true, refusedIndex indexed]
      exact fun both => high both.2
    have inside := (checked.copied taken).1
    rw [offset, signed8, if_neg high] at inside
    have small := UInt8.toNat_lt (o.memory (p + 4))
    have below : ((o.memory (p + 4)).toNat : Int) - 256 < 0 := by omega
    exact absurd inside (not_le.mpr (Int.mul_neg_of_neg_of_pos below (by omega)))
  · intro low
    refine ⟨fun taken => ?_, fun large => indexRefused intact ((refusedIndex indexed _ _).mpr ⟨large, low⟩)⟩
    have small : (o.memory (p + 4)).toNat < numJoints := by
      by_contra large
      rw [(refusedIndex indexed _ _).mpr ⟨not_lt.mp large, low⟩] at taken
      cases taken
    rw [offset, sized, extent, signed8, if_pos low]
    refine ⟨Int.mul_nonneg (Int.natCast_nonneg _) (Int.natCast_nonneg _), ?_⟩
    have room : (o.memory (p + 4)).toNat * (argsSize args).toNat + (argsSize args).toNat ≤
        numJoints * (argsSize args).toNat := by
      rw [← Nat.succ_mul]
      exact Nat.mul_le_mul_right _ small
    exact_mod_cast room

end Refusal

theorem fifthJointChecked :
    IndexChecked bench .jointControl 640 jointReceived ↔ jointReceived.memory (640 + 4) < 128 :=
  jointIndexChecked (firstEpochAnswerable _).intact (by decide) (by decide +kernel)

/- Index 255 is -1 to the handler: it copies the packet in front of the table and answers success. -/
def negativeJoint : Outside Rat :=
  (firstEpoch (packetLine [[jointControlPacketId, sizeofJointControlPacket, 1, 0, 255, 0, 0, 0]])).outside

theorem negativeIndexCopied : negativeJoint.memory 640 = jointControlPacketId ∧
    negativeJoint.memory 641 = sizeofJointControlPacket ∧ numJoints ≤ (negativeJoint.memory 644).toNat ∧
    (handlePacket bench .jointControl 640 negativeJoint).1 = .success ∧
    copyOffset .jointControl negativeJoint.memory 640 = -8 ∧ ¬ IndexChecked bench .jointControl 640 negativeJoint := by
  have success : (handlePacket bench .jointControl 640 negativeJoint).1 = .success := by decide +kernel
  have large : numJoints ≤ (negativeJoint.memory (640 + 4)).toNat := by decide +kernel
  refine ⟨by decide +kernel, by decide +kernel, large, success, by decide +kernel, fun checked => ?_⟩
  exact nomatch success.symm.trans (checked.refused large).status

end OrazioLogger.Firmware
