import OrazioLogger.DeferredQueue
import Mathlib.Data.List.Nodup
import Mathlib.Data.List.Pairwise

/-! A deferred handler just set up: every type installed has its ring of buffers,
apart from all the others, and nothing is pending. -/
namespace OrazioLogger.DeferredPacketHandler
open ByteMemory RingBuffer PacketHandler

variable {A τ : Type}

/- The arguments of one `DeferredPacketHandler_installPacket`. -/
structure Install (A : Type) where
  type : PacketType
  size : PacketSize
  buffer : Addr
  numBuffers : Int
  action : Option A

def Install.extent (i : Install A) : Nat := i.numBuffers.toNat * i.size.toNat

def installAll (m : DeferredPacketHandler A τ) : List (Install A) → DeferredPacketHandler A τ
  | [] => m
  | i :: rest => installAll (installPacket m i.type i.size i.buffer i.numBuffers i.action).2 rest

structure Installable (installs : List (Install A)) : Prop where
  once : (installs.map Install.type).Nodup
  buffers : ∀ i ∈ installs, 1 ≤ i.numBuffers ∧ i.numBuffers ≤ packetsPerTypeMax
  sizes : ∀ i ∈ installs, 4 ≤ i.size.toNat ∧ i.size.toNat ≤ 254
  apart : installs.Pairwise fun i j => ByteMemory.Disjoint i.buffer i.extent j.buffer j.extent

/- A deferred action may send and may change the program's own variables. -/
structure Unharmed (installs : List (Install A)) (before after : Surroundings τ) : Prop where
  handler : TransmitOnly before.baseHandler after.baseHandler
  buffers : ∀ i ∈ installs, ∀ x, Inside i.buffer i.extent x → after.memory x = before.memory x

def Harmless (installs : List (Install A)) (act : A → Addr → Surroundings τ → Surroundings τ) : Prop :=
  ∀ a p o, Unharmed installs o (act a p o)

def Install.info (i : Install A) : DeferredPacketOps A :=
  { type := i.type
    size := i.size
    packetBuffers := fun n => if 0 ≤ n ∧ n < i.numBuffers then some (i.buffer + n.toNat * i.size.toNat) else none
    packetBuffersMax := i.numBuffers
    packetBuffersIdx := ⟨0,0,0⟩
    deferredActionFn := i.action }

/- What the slot of type `t` holds after installing: the one install that named
it, or what was there before. -/
structure SlotAfter (m n : DeferredPacketHandler A τ) (installs : List (Install A)) (t : PacketType) : Prop where
  outcome : (∃ i ∈ installs, i.type = t ∧ n.queue.packetInfos t = i.info ∧
      ∀ p, n.outside.baseHandler.entry t = some p → p = t) ∨
    (n.queue.packetInfos t = m.queue.packetInfos t ∧ n.outside.baseHandler.entry t = m.outside.baseHandler.entry t)
  rxFn : n.outside.baseHandler.rxFn = m.outside.baseHandler.rxFn
  memory : n.outside.memory = m.outside.memory
  pending : n.queue.pendingPackets = m.queue.pendingPackets
  asserted : n.queue.assertFailed = m.queue.assertFailed

theorem installOther (m : DeferredPacketHandler A τ) (i : Install A) {t : PacketType} (other : i.type ≠ t) :
    SlotAfter m (installPacket m i.type i.size i.buffer i.numBuffers i.action).2 [] t := by
  unfold installPacket
  split
  · exact ⟨Or.inr ⟨rfl, rfl⟩, rfl, rfl, rfl, rfl⟩
  · refine ⟨Or.inr ⟨Function.update_of_ne other.symm _ _, installOtherSlot ?_⟩, installPacketFn _ _ _, rfl, rfl, rfl⟩
    simpa [operation] using other

theorem installOwn (m : DeferredPacketHandler A τ) (i : Install A)
    (fresh : m.outside.baseHandler.entry i.type = none) :
    SlotAfter m (installPacket m i.type i.size i.buffer i.numBuffers i.action).2 [i] i.type := by
  unfold installPacket
  split
  · exact ⟨Or.inr ⟨rfl, rfl⟩, rfl, rfl, rfl, rfl⟩
  · refine ⟨Or.inl ⟨i, List.mem_singleton.mpr rfl, rfl, by simp [Install.info], fun p found => ?_⟩,
      installPacketFn _ _ _, rfl, rfl, rfl⟩
    rcases installSlot found with old | ⟨new, -⟩
    · rw [fresh] at old
      contradiction
    · exact new

theorem SlotAfter.trans {m n k : DeferredPacketHandler A τ} {xs ys zs : List (Install A)} {t : PacketType}
    (first : SlotAfter m n xs t) (second : SlotAfter n k ys t) (left : xs ⊆ zs) (right : ys ⊆ zs) :
    SlotAfter m k zs t := by
  refine ⟨?_, second.rxFn.trans first.rxFn, second.memory.trans first.memory, second.pending.trans first.pending,
    second.asserted.trans first.asserted⟩
  rcases second.outcome with ⟨i, member, type, info, entry⟩ | ⟨infoSame, entrySame⟩
  · exact Or.inl ⟨i, right member, type, info, entry⟩
  · rcases first.outcome with ⟨i, member, type, info, entry⟩ | ⟨infoOld, entryOld⟩
    · refine Or.inl ⟨i, left member, type, infoSame.trans info, fun p found => entry p ?_⟩
      rwa [← entrySame]
    · exact Or.inr ⟨infoSame.trans infoOld, entrySame.trans entryOld⟩

theorem installAllOther {installs : List (Install A)} {t : PacketType} (absent : t ∉ installs.map Install.type)
    (m : DeferredPacketHandler A τ) : SlotAfter m (installAll m installs) [] t := by
  induction installs generalizing m with
  | nil => exact ⟨Or.inr ⟨rfl, rfl⟩, rfl, rfl, rfl, rfl⟩
  | cons i rest ih =>
    simp only [List.map_cons, List.mem_cons, not_or] at absent
    exact (installOther m i (Ne.symm absent.1)).trans (ih absent.2 _) (List.Subset.refl _) (List.Subset.refl _)

theorem installAllSlot {installs : List (Install A)} (once : (installs.map Install.type).Nodup) {t : PacketType}
    {m : DeferredPacketHandler A τ} (fresh : m.outside.baseHandler.entry t = none) :
    SlotAfter m (installAll m installs) installs t := by
  induction installs generalizing m with
  | nil => exact ⟨Or.inr ⟨rfl, rfl⟩, rfl, rfl, rfl, rfl⟩
  | cons i rest ih =>
    obtain ⟨absent, onceRest⟩ := List.nodup_cons.mp once
    by_cases same : i.type = t
    · subst t
      exact (installOwn m i fresh).trans (installAllOther absent _) (by simp) (List.nil_subset _)
    · have first := installOther m i same
      rcases first.outcome with ⟨j, member, -⟩ | ⟨-, entry⟩
      · contradiction
      · exact first.trans (ih onceRest (entry.trans fresh)) (List.nil_subset _) (List.subset_cons_self i rest)

/- A program that has set its handler up. -/
def setUp (outside : Surroundings τ) (installs : List (Install A)) : DeferredPacketHandler A τ :=
  installAll (initializeHandler outside) installs

def layout (outside : Surroundings τ) (installs : List (Install A)) : Layout A where
  infos := (setUp outside installs).queue.packetInfos
  known t := ∃ i ∈ installs, i.type = t ∧ (setUp outside installs).queue.packetInfos t = i.info

section SetUp
variable {outside : Surroundings τ} {installs : List (Install A)}

theorem setUpSlot (outside : Surroundings τ) (ok : Installable installs) (t : PacketType) :
    SlotAfter (initializeHandler outside) (setUp outside installs) installs t :=
  installAllSlot ok.once (PacketHandler.emptyAfterInitialize _ t)

/- A slot of the layout lies in the memory handed over with its type. -/
theorem slotOfInstall {t : PacketType} {k : Int} {b : Addr} (slot : (layout outside installs).SlotAt t k b) :
    ∃ i ∈ installs, i.type = t ∧ (layout outside installs).infos t = i.info ∧ k < i.numBuffers ∧
      b = i.buffer + k.toNat * i.size.toNat := by
  obtain ⟨i, member, type, info⟩ := slot.known
  have here : (layout outside installs).infos t = i.info := info
  have low := slot.low
  have high := slot.high
  have buffer := slot.buffer
  simp only [here, Install.info] at high buffer
  rw [if_pos ⟨low, high⟩] at buffer
  exact ⟨i, member, type, here, high, (Option.some.inj buffer).symm⟩

theorem slotExtent {i : Install A} {k : Int} (low : 0 ≤ k) (high : k < i.numBuffers) :
    k.toNat * i.size.toNat + i.size.toNat ≤ i.extent := by
  rw [← Nat.succ_mul]
  exact Nat.mul_le_mul_right _ (by omega)

theorem slotsApart {i : Install A} {k l : Int} (low : 0 ≤ k) (before : k < l) :
    k.toNat * i.size.toNat + i.size.toNat ≤ l.toNat * i.size.toNat := by
  rw [← Nat.succ_mul]
  exact Nat.mul_le_mul_right _ (by omega)

theorem layoutSound (ok : Installable installs) : (layout outside installs).Sound where
  named t known := by
    obtain ⟨i, -, type, info⟩ := known
    change ((setUp outside installs).queue.packetInfos t).type = t
    rw [info]
    exact type
  sized t known := by
    obtain ⟨i, member, -, info⟩ := known
    change 4 ≤ ((setUp outside installs).queue.packetInfos t).size.toNat ∧
      ((setUp outside installs).queue.packetInfos t).size.toNat ≤ 254
    rw [info]
    exact ok.sizes i member
  buffers t k known low high := by
    obtain ⟨i, -, -, info⟩ := id known
    have here : (layout outside installs).infos t = i.info := info
    have high' := high
    rw [here] at high'
    refine ⟨i.buffer + k.toNat * i.size.toNat, known, low, high, ?_⟩
    rw [here]
    exact if_pos ⟨low, high'⟩
  apart t k b u l d first second differ := by
    obtain ⟨i, iMember, iType, iInfo, iHigh, rfl⟩ := slotOfInstall first
    obtain ⟨j, jMember, jType, jInfo, jHigh, rfl⟩ := slotOfInstall second
    have iSize : (layout outside installs).size t = i.size.toNat := by rw [Layout.size, iInfo]; rfl
    have jSize : (layout outside installs).size u = j.size.toNat := by rw [Layout.size, jInfo]; rfl
    have iEnd := slotExtent first.low iHigh
    have jEnd := slotExtent second.low jHigh
    rw [iSize, jSize]
    by_cases same : t = u
    · obtain rfl : i = j := List.inj_on_of_nodup_map ok.once iMember jMember (iType.trans (same.trans jType.symm))
      rcases lt_or_gt_of_ne (differ.resolve_left (not_not_intro same)) with less | more
      · have := slotsApart (i := i) first.low less
        exact Or.inl (by omega)
      · have := slotsApart (i := i) second.low more
        exact Or.inr (by omega)
    · have other : i ≠ j := by rintro rfl; exact same (iType.symm.trans jType)
      have : Std.Symm fun i j : Install A => ByteMemory.Disjoint i.buffer i.extent j.buffer j.extent := ⟨fun _ _ => disjointComm⟩
      rcases ok.apart.forall iMember jMember other with before | after
      · exact Or.inl (by omega)
      · exact Or.inr (by omega)

theorem setUpSteady (ok : Installable installs) :
    Steady (layout outside installs) (setUp outside installs) [] [] := by
  have zeroed (t : PacketType) (unknown : ¬ (layout outside installs).known t) :
      (setUp outside installs).queue.packetInfos t = zeroedInfo := by
    rcases (setUpSlot outside ok t).outcome with ⟨i, member, type, info, -⟩ | ⟨info, -⟩
    · exact absurd ⟨i, member, type, info⟩ unknown
    · exact info
  have idle (t : PacketType) : (setUp outside installs).idx t = ⟨0,0,0⟩ := by
    by_cases known : (layout outside installs).known t
    · obtain ⟨i, -, -, info⟩ := known
      rw [idx, info]
      rfl
    · rw [idx, zeroed t known]
      rfl
  have slot := setUpSlot outside ok 0
  refine ⟨⟨fun t => rfl, slot.asserted, fun t p found => ?_, fun t known => ?_, by simp, fun t known => ?_,
    fun t _ => idle t⟩, slot.pending, by simp, .hunting slot.rxFn, trivial⟩
  · rcases (setUpSlot outside ok t).outcome with ⟨i, member, type, info, named⟩ | ⟨-, entry⟩
    · exact ⟨named p found, i, member, type, info⟩
    · rw [entry, show (initializeHandler outside).outside.baseHandler.entry t = none from
        PacketHandler.emptyAfterInitialize _ t] at found
      contradiction
  · obtain ⟨i, member, -, info⟩ := known
    have here : (layout outside installs).infos t = i.info := info
    rw [idle, here]
    exact validEmpty (by have := (ok.buffers i member).1; simp only [Install.info]; omega)
  · rw [idle]
    rfl

theorem Unharmed.spares {before after : Surroundings τ} (unharmed : Unharmed installs before after) :
    Spares (layout outside installs) before after where
  handler := unharmed.handler
  buffers t k b x slot inside := by
    obtain ⟨i, member, -, info, high, rfl⟩ := slotOfInstall slot
    have size : (layout outside installs).size t = i.size.toNat := by rw [Layout.size, info]; rfl
    rw [size] at inside
    have fits := slotExtent slot.low high
    exact unharmed.buffers i member x (by unfold Inside at *; omega)

end SetUp

end OrazioLogger.DeferredPacketHandler
