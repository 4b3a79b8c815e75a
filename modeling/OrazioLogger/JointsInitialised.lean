import OrazioLogger.BridgeOutcome

/-! What initialising the joints can change: their controllers and bridges, and the pins in their parameters. -/
namespace OrazioLogger.Firmware
open ByteMemory OrazioPackets

variable {F : Type}

structure BridgesOnly (f later : State F) : Prop where
  same : later = { f with bridges := later.bridges, driverCalls := later.driverCalls }

section Bridges
variable {b : Board F} {f later : State F}

theorem BridgesOnly.globals (only : BridgesOnly f later) : later.globals = f.globals := by rw [only.same]

/- How the initialisation of bridge `i` can end: pins are set back, if at all, last. -/
structure Initialised (i : Nat) (accepted : Bool) (f : State F) (r : PacketStatus × State F) : Prop where
  changed : ∃ mid, BridgesOnly f mid ∧ (r.2 = mid ∨ ∃ k < 3, ∃ c, r.2 = setPin mid i k c)
  outcome : if accepted then r.1 = .success else r.1 = .wrongPins ∨ r.1 = .unknownType

theorem hBridgeInitialised (b : Board F) (i : Nat) (type : UInt8) (f : State F) :
    Initialised i (bridgeAccepted b type (pin f i 0) (pin f i 1) (pin f i 2)) f (hBridgeInit b i type f) := by
  have refused := (outcomeRefused b (f.bridges i) (pin f i 0) (pin f i 1) (pin f i 2) type).1
  have status := outcomeStatus b (f.bridges i) (pin f i 0) (pin f i 1) (pin f i 2) type
  rw [hBridgeInitOutcome]
  dsimp only at refused status ⊢
  generalize bridgeOutcome b (f.bridges i) (pin f i 0) (pin f i 1) (pin f i 2) type = o at refused status ⊢
  refine ⟨⟨amid f i o.calls o.bridge, ⟨rfl⟩, ?_⟩, status⟩
  unfold BridgeOutcome.applied
  dsimp only
  split
  · exact Or.inl rfl
  · rename_i k at_
    exact Or.inr ⟨k, refusedSmall (refused.symm.trans at_), _, rfl⟩

theorem hBridgeSetSpeedOnly (i : Nat) (speed : Int) (f : State F) : BridgesOnly f (hBridgeSetSpeed b i speed f).2 := by
  rw [hBridgeSetSpeedCalls]
  exact ⟨rfl⟩

end Bridges

/-! Initialising the joints. -/

def PinWritten (g : Global) (a : Nat) : Prop := g = .jointParams ∧ ∃ i < numJoints, ∃ k < 3, a = pinAt i k

structure JointsOnly (f later : State F) : Prop where
  same : later = { f with
    globals := later.globals, jointControllers := later.jointControllers, bridges := later.bridges
    driverCalls := later.driverCalls }
  globals : SameOutside PinWritten f later
  controllers : ∀ i, later.jointControllers i = f.jointControllers i ∨
    later.jointControllers i = jointControllerInit i .zeroed

def jointAccepted (b : Board F) (f : State F) (i : Nat) : Bool :=
  bridgeAccepted b (f.globals .jointParams (jointParam i + 21)) (pin f i 0) (pin f i 1) (pin f i 2)

section Init
variable {b : Board F} {f mid later : State F} {i : Nat}

theorem JointsOnly.refl (f : State F) : JointsOnly f f := ⟨rfl, .refl f, fun _ => Or.inl rfl⟩

theorem JointsOnly.trans (first : JointsOnly f mid) (second : JointsOnly mid later) : JointsOnly f later := by
  refine ⟨?_, first.globals.trans second.globals, fun i => ?_⟩
  · rw [second.same, first.same]
  · rcases second.controllers i with kept | reset
    · rw [kept]
      exact first.controllers i
    · exact Or.inr reset

theorem setPinOutside {k : Nat} {c : UInt8} {a : Nat} (outside : a ≠ pinAt i k) :
    (setPin f i k c).globals .jointParams a = f.globals .jointParams a :=
  setByteOutside _ _ _ _ fun here => outside here.2

/- One turn of the loop. -/
theorem jointInitialised (b : Board F) (i : Nat) (f : State F) :
    Initialised i (jointAccepted b f i) (setController f i (jointControllerInit i .zeroed)) (jointInit b i f) :=
  hBridgeInitialised b i (f.globals .jointParams (jointParam i + 21)) (setController f i (jointControllerInit i .zeroed))

theorem jointInitOnly (b : Board F) (f : State F) (joint : i < numJoints) :
    JointsOnly f (jointInit b i f).2 ∧ (jointInit b i f).2.jointControllers i = jointControllerInit i .zeroed := by
  obtain ⟨mid, only, ended⟩ := (jointInitialised b i f).changed
  have reset : mid.jointControllers = Function.update f.jointControllers i (jointControllerInit i .zeroed) := by
    rw [only.same]
    rfl
  have controllers : ∀ j, mid.jointControllers j = f.jointControllers j ∨
      mid.jointControllers j = jointControllerInit j .zeroed := by
    intro j
    rw [reset]
    by_cases here : j = i
    · subst here
      exact Or.inr (Function.update_self ..)
    · exact Or.inl (Function.update_of_ne here ..)
  have one : JointsOnly f mid := ⟨by rw [only.same]; rfl, fun _ _ _ => by rw [only.globals]; rfl, controllers⟩
  rcases ended with same | ⟨k, pin, c, same⟩
  · rw [same, reset]
    exact ⟨one, Function.update_self ..⟩
  · rw [same]
    refine ⟨one.trans ⟨rfl, ?_, fun _ => Or.inl rfl⟩, ?_⟩
    · exact (SameOutside.refl mid).setByte c ⟨rfl, i, joint, k, pin, rfl⟩
    · change mid.jointControllers i = _
      rw [reset]
      exact Function.update_self ..

/- A joint is accepted by its own parameters, whatever another joint's bridge did. -/
theorem jointAcceptedKept {j : Nat} (b : Board F) (f : State F) (other : j ≠ i) :
    jointAccepted b (jointInit b i f).2 j = jointAccepted b f j := by
  obtain ⟨mid, only, ended⟩ := (jointInitialised b i f).changed
  have entry : ∀ a, 25 * j ≤ a → a < 25 * j + 25 →
      (jointInit b i f).2.globals .jointParams a = f.globals .jointParams a := by
    intro a low high
    rcases ended with same | ⟨k, pin, c, same⟩
    · rw [same, only.globals]
      rfl
    · rw [same, setPinOutside, only.globals]
      · rfl
      · simp only [pinAt, jointParamEntry]
        omega
  unfold jointAccepted Firmware.pin pinAt
  simp only [jointParamEntry]
  rw [entry _ (by omega) (by omega), entry _ (by omega) (by omega), entry _ (by omega) (by omega),
    entry _ (by omega) (by omega)]

def AllAccepted (b : Board F) (f : State F) (i left : Nat) : Prop := ∀ j, i ≤ j → j < i + left → jointAccepted b f j = true

/- How the loop ends when `left` joints remain. -/
structure LoopEnds (b : Board F) (i left : Nat) (f : State F) (r : PacketStatus × State F) : Prop where
  only : JointsOnly f r.2
  done : AllAccepted b f i left → r.1 = .success
  failed : ¬ AllAccepted b f i left → r.1 = .wrongPins ∨ r.1 = .unknownType
  bound : AllAccepted b f i left → ∀ j, i ≤ j → j < i + left → r.2.jointControllers j = jointControllerInit j .zeroed

theorem loopEnds (b : Board F) (i left : Nat) (f : State F) (inside : i + left ≤ numJoints) :
    LoopEnds b i left f (jointsInitLoop b i f left) := by
  induction left generalizing i f with
  | zero =>
    have all : AllAccepted b f i 0 := fun j low high => by omega
    exact ⟨.refl f, fun _ => rfl, fun no => absurd all no, fun _ j low high => by omega⟩
  | succ left ih =>
    obtain ⟨only, reset⟩ := jointInitOnly b f (show i < numJoints by omega)
    have outcome := (jointInitialised b i f).outcome
    have rest : AllAccepted b f i (left + 1) ↔ jointAccepted b f i = true ∧
        AllAccepted b (jointInit b i f).2 (i + 1) left := by
      constructor
      · intro all
        refine ⟨all i (le_refl _) (by omega), fun j low high => ?_⟩
        rw [jointAcceptedKept b f (by omega)]
        exact all j (by omega) (by omega)
      · rintro ⟨first, later⟩ j low high
        rcases Nat.eq_or_lt_of_le low with rfl | above
        · exact first
        · rw [← jointAcceptedKept b f (i := i) (by omega)]
          exact later j above (by omega)
    unfold jointsInitLoop
    cases accepted : jointAccepted b f i with
    | false =>
      rw [accepted, if_neg Bool.false_ne_true] at outcome
      have negative : (jointInit b i f).1.code < 0 := by rcases outcome with r | r <;> rw [r] <;> decide
      have refused : ¬ AllAccepted b f i (left + 1) := fun all => by simp [accepted] at rest; exact rest all
      dsimp only
      rw [if_pos negative]
      exact ⟨only, fun all => absurd all refused, fun _ => outcome, fun all => absurd all refused⟩
    | true =>
      rw [accepted, if_pos rfl] at outcome
      dsimp only
      rw [outcome, if_neg (by decide)]
      obtain ⟨onlyLater, done, failed, bound⟩ := ih (i + 1) (jointInit b i f).2 (by omega)
      simp only [accepted, true_and] at rest
      refine ⟨only.trans onlyLater, fun all => done (rest.mp all), fun no => failed fun all => no (rest.mpr all), ?_⟩
      intro all j low high
      rcases Nat.eq_or_lt_of_le low with rfl | above
      · rcases onlyLater.controllers i with kept | again
        · rw [kept, reset]
        · exact again
      · exact bound (rest.mp all) j above (by omega)

theorem jointsInitEnds (b : Board F) (f : State F) : LoopEnds b 0 numJoints f (jointsInit b f) :=
  loopEnds b 0 numJoints f (by decide)

end Init

end OrazioLogger.Firmware
