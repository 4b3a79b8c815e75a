import OrazioLogger.DeferredRuns

/-! What `DeferredPacketHandler_installPacket` lets through: it writes the record of
the type before the base handler refuses it, and as many buffers as it is told to. -/
namespace OrazioLogger.DeferredPacketHandler
open ByteMemory RingBuffer PacketHandler

variable {A τ : Type}

def Install.call (i : Install A) (m : DeferredPacketHandler A τ) : PacketStatus × DeferredPacketHandler A τ :=
  installPacket m i.type i.size i.buffer i.numBuffers i.action

/-! Refused installations. -/

/- The arguments that do no harm when they are refused: nothing is written, or what is there already. -/
def Spared (m : DeferredPacketHandler A τ) (i : Install A) : Prop :=
  packetTypeMax ≤ i.type.toNat ∨ m.queue.packetInfos i.type = i.info

theorem refusedBase {P σ : Type} {ops : P → PacketOperations σ} {h : PacketHandler P} {p : P}
    (failed : (PacketHandler.installPacket ops h p).1.code < 0) : (PacketHandler.installPacket ops h p).2 = h := by
  simp only [PacketHandler.installPacket] at failed ⊢
  split
  · rename_i inRange
    rw [dif_pos inRange] at failed
    split
    · rfl
    · rename_i empty
      rw [if_neg empty] at failed
      exact absurd (show (0 : Int) < 0 from failed) (lt_irrefl 0)
  · rfl

theorem refusedInstall {m : DeferredPacketHandler A τ} {i : Install A} (failed : (i.call m).1.code < 0)
    (inRange : i.type.toNat < packetTypeMax) :
    (i.call m).2 = { m with queue := { m.queue with
      packetInfos := Function.update m.queue.packetInfos i.type i.info } } := by
  have written : ¬ i.type.toNat ≥ packetTypeMax := Nat.not_le.mpr inRange
  unfold Install.call installPacket at failed ⊢
  simp only [if_neg written] at failed ⊢
  rw [refusedBase failed]
  rfl

theorem refusedKeeps {m : DeferredPacketHandler A τ} {i : Install A} (failed : (i.call m).1.code < 0) :
    (i.call m).2 = m ↔ Spared m i := by
  by_cases inRange : i.type.toNat < packetTypeMax
  · rw [refusedInstall failed inRange]
    constructor
    · intro same
      have infos := congrFun (congrArg (fun n => n.queue.packetInfos) same) i.type
      exact Or.inr (infos.symm.trans (Function.update_self ..))
    · rintro (outOfRange | same)
      · exact absurd inRange (Nat.not_lt.mpr outOfRange)
      · rw [← same, Function.update_eq_self]
  · have outOfRange : i.type.toNat ≥ packetTypeMax := Nat.not_lt.mp inRange
    refine ⟨fun _ => Or.inl outOfRange, fun _ => ?_⟩
    unfold Install.call installPacket
    rw [if_pos outOfRange]

inductive Call (A : Type) where
  | operation (o : Operation) | install (i : Install A)

def Call.operated : Call A → Option Operation
  | .operation o => some o
  | .install _ => none

def performCalls (act : A → Addr → Surroundings τ → Surroundings τ) (r : Run A τ) : List (Call A) → Run A τ
  | [] => r
  | .operation o :: rest => performCalls act (perform act r o) rest
  | .install i :: rest => performCalls act { r with machine := (i.call r.machine).2 } rest

/- Every installation on the way is refused and does no harm. -/
def AllSpared (act : A → Addr → Surroundings τ → Surroundings τ) (r : Run A τ) : List (Call A) → Prop
  | [] => True
  | .operation o :: rest => AllSpared act (perform act r o) rest
  | .install i :: rest => (i.call r.machine).1.code < 0 ∧ Spared r.machine i ∧
      AllSpared act { r with machine := (i.call r.machine).2 } rest

theorem sparedCalls {act : A → Addr → Surroundings τ → Surroundings τ} {calls : List (Call A)} {r : Run A τ}
    (spared : AllSpared act r calls) : performCalls act r calls = performAll act r (calls.filterMap Call.operated) := by
  induction calls generalizing r with
  | nil => rfl
  | cons call rest ih =>
    cases call with
    | operation o => exact ih spared
    | install i =>
      obtain ⟨failed, here, later⟩ := spared
      have same := (refusedKeeps failed).mpr here
      rw [performCalls, List.filterMap_cons_none rfl]
      rw [same] at later ⊢
      exact ih later

/- A call that returns an error leaves the handler as it was exactly for these arguments; while
they are such, what was and is received is executed as if none of the calls had been made. -/
theorem failedInstallKeeps (act : A → Addr → Surroundings τ → Surroundings τ) :
    (∀ (m : DeferredPacketHandler A τ) (i : Install A), (i.call m).1.code < 0 → ((i.call m).2 = m ↔ Spared m i)) ∧
    ∀ outside installs calls, Installable installs → Harmless installs act →
      AllSpared act (begin (setUp outside installs)) calls →
      performCalls act (begin (setUp outside installs)) calls =
        performAll act (begin (setUp outside installs)) (calls.filterMap Call.operated) ∧
      Orderly installs ((calls.filterMap Call.operated).filterMap Operation.byte)
        (performCalls act (begin (setUp outside installs)) calls) := by
  refine ⟨fun m i failed => refusedKeeps failed, fun outside installs calls ok harmless spared => ?_⟩
  have same := sparedCalls spared
  refine ⟨same, ?_⟩
  rw [same]
  exact runOrderly outside ok act harmless _

/- A packet is pending, and its type is installed once more with another buffer and action. -/
theorem refusedInstallTakesOver :
    let m := (performAll (fun _ _ o => o) (begin (setUp idleSurroundings [⟨1,4,100,2,some false⟩]))
      ((frame [1,4,7,0]).map Operation.rx)).machine
    let i : Install Bool := ⟨1,4,300,2,some true⟩
    (i.call m).1 = .packetInstallError ∧ m.queue.pendingPackets = [100] ∧
    (processPendingPackets (fun _ _ o => o) m).2.map ActionCall.made = [(false,100,[1,4,7,0])] ∧
    (processPendingPackets (fun _ _ o => o) (i.call m).2).2.map ActionCall.made = [(true,100,[1,4,7,0])] ∧
    (processPendingPackets (fun _ _ o => o) (i.call m).2).1.queue.assertFailed = true := by
  decide +kernel

/- An installation made once more as it was, and one of a type there is no room for. -/
theorem refusedCallsHarmless :
    let calls : List (Call Unit) := .install ⟨1,4,100,2,some ()⟩ :: (frame [1,4,7,0]).map (fun c => .operation (.rx c)) ++
      [.install ⟨25,4,300,2,none⟩, .operation .processPending]
    performCalls (fun _ _ o => o) (begin (setUp idleSurroundings twoInstalls)) calls =
        performAll (fun _ _ o => o) (begin (setUp idleSurroundings twoInstalls)) (calls.filterMap Call.operated) ∧
      Orderly twoInstalls ((calls.filterMap Call.operated).filterMap Operation.byte)
        (performCalls (fun _ _ o => o) (begin (setUp idleSurroundings twoInstalls)) calls) :=
  (failedInstallKeeps fun _ _ o => o).2 idleSurroundings twoInstalls _ ⟨by decide, by decide, by decide, by decide⟩
    (fun _ _ o => ⟨.refl o.baseHandler, fun _ _ _ _ => rfl⟩) ⟨by decide, Or.inr rfl, by decide, Or.inl (by decide), trivial⟩

/-! Buffer slots. -/

def SlotsBelow (idx : Indices) : Prop :=
  0 ≤ idx.start ∧ idx.start < packetsPerTypeMax ∧ 0 ≤ idx.stop ∧ idx.stop < packetsPerTypeMax
instance (idx) : Decidable (SlotsBelow idx) := by unfold SlotsBelow; infer_instance

theorem slotsBelowPut {max : Int} {idx : Indices} (few : max ≤ packetsPerTypeMax) (below : SlotsBelow idx) :
    SlotsBelow (bufferPut max idx) := by
  obtain ⟨startLow, startHigh, stopLow, stopHigh⟩ := below
  refine ⟨startLow, startHigh, ?_, ?_⟩ <;> simp only [bufferPut, packetsPerTypeMax] at * <;> split <;> omega

theorem slotsBelowGet {max : Int} {idx : Indices} (few : max ≤ packetsPerTypeMax) (below : SlotsBelow idx) :
    SlotsBelow (bufferGet max idx) := by
  obtain ⟨startLow, startHigh, stopLow, stopHigh⟩ := below
  refine ⟨?_, ?_, stopLow, stopHigh⟩ <;> simp only [bufferGet, packetsPerTypeMax] at * <;> split <;> omega

/- The ring of type `t` has a bound that fits and keeps within it. -/
structure Fits (m : DeferredPacketHandler A τ) (t : PacketType) : Prop where
  few : (m.queue.packetInfos t).packetBuffersMax ≤ packetsPerTypeMax
  below : SlotsBelow (m.idx t)

section Fits
variable {m : DeferredPacketHandler A τ} {t : PacketType}

theorem rxByteFits (fits : Fits m t) (c : UInt8) : Fits (rxByte m c).2 t := by
  cases rxByteQueue m c with
  | kept same => exact ⟨by rw [same]; exact fits.few, by rw [idx, same]; exact fits.below⟩
  | received _ packet memory same =>
    have infos : Fits { m with queue := (onReceive packet ⟨memory, m.queue⟩).2.env } t := by
      simp only [onReceive]
      split
      · exact ⟨fits.few, fits.below⟩
      · by_cases here : t = memory packet
        · subst here
          exact ⟨by simpa using fits.few, by simpa [idx] using slotsBelowPut fits.few fits.below⟩
        · exact ⟨by simpa [here] using fits.few, by simpa [idx, here] using fits.below⟩
    exact ⟨by rw [same]; exact infos.few, by rw [idx, same]; exact infos.below⟩

theorem processPacketFits (act : A → Addr → Surroundings τ → Surroundings τ) (fits : Fits m t) (p : Addr) :
    Fits (processPacket act m p).1 t := by
  have queue : Fits { m with queue := (processPacket act m p).1.queue } t := by
    simp only [processPacket]
    by_cases here : t = m.outside.memory p
    · subst here
      exact ⟨by simpa using fits.few, by simpa [idx] using slotsBelowGet fits.few fits.below⟩
    · exact ⟨by simpa [here] using fits.few, by simpa [idx, here] using fits.below⟩
  exact ⟨queue.few, queue.below⟩

theorem processLoopFits (act : A → Addr → Surroundings τ → Surroundings τ) (ps : List Addr) (fits : Fits m t) :
    Fits (processLoop act m ps).1 t := by
  induction ps generalizing m with
  | nil => exact fits
  | cons p rest ih => exact ih (processPacketFits act fits p)

theorem performAllFits (act : A → Addr → Surroundings τ → Surroundings τ) (operations : List Operation) {r : Run A τ}
    (fits : Fits r.machine t) : Fits (performAll act r operations).machine t := by
  induction operations generalizing r with
  | nil => exact fits
  | cons operation rest ih =>
    cases operation with
    | rx c => exact ih (rxByteFits fits c)
    | processPending =>
      have looped := processLoopFits act r.machine.queue.pendingPackets fits
      exact ih ⟨looped.few, looped.below⟩

end Fits

/- Slots written by the call, and slots its ring moves to later, between the packets of a batch too. -/
structure SlotsInRange (act : A → Addr → Surroundings τ → Surroundings τ) (m : DeferredPacketHandler A τ) (t : PacketType) :
    Prop where
  written : ∀ k, ((m.queue.packetInfos t).packetBuffers k).isSome → k < packetsPerTypeMax
  later : ∀ operations handled, handled <+: (performAll act (begin m) operations).machine.queue.pendingPackets →
    SlotsBelow ((processLoop act (performAll act (begin m) operations).machine handled).1.idx t)

/- An error is returned for a type there is no room for, and for one the base handler knows. -/
theorem installFails (m : DeferredPacketHandler A τ) (i : Install A) :
    (i.call m).1.code < 0 ↔ packetTypeMax ≤ i.type.toNat ∨ (m.outside.baseHandler.entry i.type).isSome := by
  have refused : PacketStatus.packetInstallError.code < 0 := by decide
  have accepted : ¬ PacketStatus.success.code < 0 := by decide
  unfold Install.call installPacket
  by_cases inRange : i.type.toNat < packetTypeMax
  · have typed (queue : DeferredQueue A) (info : DeferredPacketOps A) : (operation ⟨m.outside.memory,
        { queue with packetInfos := Function.update queue.packetInfos i.type info }⟩ i.type).type = info.type := by
      simp only [operation, Function.update_self]
    rw [if_neg (Nat.not_le.mpr inRange)]
    simp only [PacketHandler.installPacket, typed, dif_pos inRange, entry, Nat.not_le.mpr inRange, false_or]
    split
    · rename_i taken
      exact ⟨fun _ => taken, fun _ => refused⟩
    · rename_i free
      exact ⟨fun wrong => absurd wrong accepted, fun taken => absurd taken free⟩
  · have outOfRange : i.type.toNat ≥ packetTypeMax := Nat.not_lt.mp inRange
    rw [if_pos outOfRange]
    exact ⟨fun _ => Or.inl outOfRange, fun _ => refused⟩

theorem installedInfo (m : DeferredPacketHandler A τ) {i : Install A} (inRange : i.type.toNat < packetTypeMax) :
    (i.call m).2.queue.packetInfos i.type = i.info := by
  have written : ¬ i.type.toNat ≥ packetTypeMax := Nat.not_le.mpr inRange
  unfold Install.call installPacket
  simp only [if_neg written, Function.update_self]
  rfl

end OrazioLogger.DeferredPacketHandler
