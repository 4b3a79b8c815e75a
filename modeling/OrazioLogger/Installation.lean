import OrazioLogger.Receiver

/-! A handler set up by `PacketHandler_initialize` and any sequence of
`PacketHandler_installPacket`, refused ones included: who ends up in which slot. -/
namespace OrazioLogger.PacketHandler

variable {P σ : Type}

def installAll (ops : P → PacketOperations σ) (h : PacketHandler P) : List P → PacketHandler P
  | [] => h
  | p :: rest => installAll ops (installPacket ops h p).2 rest

/- Operations that are constant records: the pointer is the record. -/
def direct (_ : World σ) (op : PacketOperations σ) : PacketOperations σ := op

theorem stableDirect : StableOps (direct (σ := σ)) :=
  ⟨fun _ _ => ⟨fun _ => rfl, fun _ => rfl⟩, fun _ _ _ _ => ⟨fun _ => rfl, fun _ => rfl⟩,
    fun _ _ _ _ _ => ⟨fun _ => rfl, fun _ => rfl⟩⟩

theorem emptyAfterInitialize (h : PacketHandler P) (t : PacketType) : (initializeHandler h).entry t = none := by
  simp [entry, initializeHandler]

theorem installSlot {ops : P → PacketOperations σ} {h : PacketHandler P} {p q : P} {t : PacketType}
    (found : (installPacket ops h p).2.entry t = some q) :
    h.entry t = some q ∨ (q = p ∧ (ops p).type = t) := by
  simp only [installPacket] at found
  split at found
  · rename_i inBounds
    split at found
    · exact Or.inl found
    · unfold entry at found ⊢
      split at found
      · rename_i inRange
        by_cases same : t.toNat = (ops p).type.toNat
        · simp only [same, Function.update_self, Option.some.injEq] at found
          exact Or.inr ⟨found.symm, UInt8.toNat_inj.mp same.symm⟩
        · refine Or.inl ?_
          have other : (⟨t.toNat, inRange⟩ : Fin packetTypeMax) ≠ ⟨(ops p).type.toNat, inBounds⟩ := by
            simpa using same
          dsimp only at found
          rwa [dif_pos inRange, ← Function.update_of_ne other (some p) h.operations]
      · contradiction
  · exact Or.inl found

theorem installOtherSlot {ops : P → PacketOperations σ} {h : PacketHandler P} {p : P} {t : PacketType}
    (other : (ops p).type ≠ t) : (installPacket ops h p).2.entry t = h.entry t := by
  simp only [installPacket]
  split
  · rename_i inBounds
    split
    · rfl
    · unfold entry
      split
      · rename_i inRange
        refine Function.update_of_ne (fun same => other ?_) _ _
        exact UInt8.toNat_inj.mp (Fin.mk.inj same).symm
      · rfl
  · rfl

theorem installedSlot {ops : P → PacketOperations σ} {ps : List P} {h : PacketHandler P} {q : P} {t : PacketType}
    (found : (installAll ops h ps).entry t = some q) :
    h.entry t = some q ∨ (q ∈ ps ∧ (ops q).type = t) := by
  induction ps generalizing h with
  | nil => exact Or.inl found
  | cons p rest ih =>
    rcases ih found with before | ⟨member, type⟩
    · rcases installSlot before with old | ⟨rfl, type⟩
      · exact Or.inl old
      · exact Or.inr ⟨List.mem_cons_self, type⟩
    · exact Or.inr ⟨List.mem_cons_of_mem p member, type⟩

theorem installPacketFn (ops : P → PacketOperations σ) (h : PacketHandler P) (p : P) :
    (installPacket ops h p).2.rxFn = h.rxFn := by
  simp only [installPacket]
  split
  · split <;> rfl
  · rfl

theorem installAllFn (ops : P → PacketOperations σ) (h : PacketHandler P) (ps : List P) :
    (installAll ops h ps).rxFn = h.rxFn := by
  induction ps generalizing h with
  | nil => rfl
  | cons p rest ih => exact (ih _).trans (installPacketFn ops h p)

theorem installPacketTx (ops : P → PacketOperations σ) (h : PacketHandler P) (p : P) :
    (installPacket ops h p).2.tx = h.tx := by
  simp only [installPacket]
  split
  · split <;> rfl
  · rfl

theorem installAllTx (ops : P → PacketOperations σ) (h : PacketHandler P) (ps : List P) :
    (installAll ops h ps).tx = h.tx := by
  induction ps generalizing h with
  | nil => rfl
  | cons p rest ih => exact (ih _).trans (installPacketTx ops h p)

theorem installAllOtherSlot {ops : P → PacketOperations σ} {ps : List P} {h : PacketHandler P} {t : PacketType}
    (absent : ∀ p ∈ ps, (ops p).type ≠ t) : (installAll ops h ps).entry t = h.entry t := by
  induction ps generalizing h with
  | nil => rfl
  | cons p rest ih =>
    exact (ih fun q member => absent q (List.mem_cons_of_mem p member)).trans
      (installOtherSlot (absent p List.mem_cons_self))

theorem installOwnSlot {ops : P → PacketOperations σ} {h : PacketHandler P} {p : P}
    (inRange : (ops p).type.toNat < packetTypeMax) (empty : h.entry (ops p).type = none) :
    (installPacket ops h p).2.entry (ops p).type = some p := by
  unfold entry at empty ⊢
  simp only [dif_pos inRange] at empty
  simp only [installPacket, dif_pos inRange, empty, Option.isSome_none, Bool.false_eq_true, if_false, Function.update_self]

/- Distinct types in range, installed in empty slots, are all found. -/
theorem installedFound {ops : P → PacketOperations σ} {ps : List P} {h : PacketHandler P} {q : P}
    (inRange : ∀ p ∈ ps, (ops p).type.toNat < packetTypeMax) (once : ps.Pairwise fun p q => (ops p).type ≠ (ops q).type)
    (empty : ∀ p ∈ ps, h.entry (ops p).type = none) (member : q ∈ ps) :
    (installAll ops h ps).entry (ops q).type = some q := by
  induction ps generalizing h with
  | nil => contradiction
  | cons p rest ih =>
    obtain ⟨apart, onceRest⟩ := List.pairwise_cons.mp once
    rcases List.mem_cons.mp member with rfl | later
    · exact (installAllOtherSlot fun r inside => (apart r inside).symm).trans
        (installOwnSlot (inRange q member) (empty q member))
    · refine ih (fun r inside => inRange r (List.mem_cons_of_mem p inside)) onceRest (fun r inside => ?_) later
      exact (installOtherSlot (apart r inside)).trans (empty r (List.mem_cons_of_mem p inside))

def receiver (h : PacketHandler (PacketOperations σ)) (installed : List (PacketOperations σ)) :
    PacketHandler (PacketOperations σ) :=
  installAll id (initializeHandler h) installed

theorem receiverFn (h : PacketHandler (PacketOperations σ)) (installed : List (PacketOperations σ)) :
    (receiver h installed).rxFn = .rxAA := installAllFn id (initializeHandler h) installed

theorem receiverEntry {h : PacketHandler (PacketOperations σ)} {installed : List (PacketOperations σ)}
    {t : PacketType} {op : PacketOperations σ} (found : (receiver h installed).entry t = some op) :
    op ∈ installed ∧ op.type = t := by
  rcases installedSlot found with old | new
  · rw [emptyAfterInitialize] at old
    contradiction
  · exact new

theorem receiverFixed {h : PacketHandler (PacketOperations σ)} {installed : List (PacketOperations σ)}
    (sizes : ∀ op ∈ installed, 4 ≤ op.size.toNat ∧ op.size.toNat ≤ 254) (w : World σ) :
    FixedSizes direct w (receiver h installed) := by
  intro t op found
  obtain ⟨member, type⟩ := receiverEntry found
  exact ⟨op.size, type, rfl, (sizes op member).1, (sizes op member).2⟩

/- A handler before its initialisation, and an operation to run it with. -/
def blankHandler (P : Type) : PacketHandler P :=
  ⟨fun _ => none, none, none, 0, none, none, 0, .rxAA, fun _ => 0, ⟨0,0,0⟩, 0⟩

def fourByteOp : PacketOperations Unit :=
  ⟨1, 4, fun _ _ w => (some 100, w), some fun _ w => (.success, w)⟩

end OrazioLogger.PacketHandler
