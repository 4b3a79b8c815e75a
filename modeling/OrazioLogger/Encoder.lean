import OrazioLogger.Joints
import OrazioLogger.Support.Walks

/-! arch/atmega2560/encoder.c. The four pins are the low nibble of port B; encoder `i` has pins `2i` and `2i+1`. -/
namespace OrazioLogger.Encoder
open Firmware (ofInt16)
open Walks

abbrev numEncoders : Nat := 2
def encoderMask : UInt8 := 0x0F

structure Encoders where
  status : UInt8
  currentValue : Fin numEncoders → UInt16
  sampledValue : Fin numEncoders → UInt16

def encoderInit : Encoders := ⟨0, fun _ => 0, fun _ => 0⟩

def encoderSample (e : Encoders) : Encoders := { e with sampledValue := e.currentValue }

def encoderGetValue (e : Encoders) (numEncoder : Fin numEncoders) : UInt16 := e.sampledValue numEncoder

/- By the old pins, then the new ones. -/
def transitionTable : List Int := [0, 1, -1, 0, -1, 0, 0, 1, 1, 0, 0, -1, 0, -1, 1, 0]

def tableIndex (ns ps : UInt8) : UInt8 := (ns &&& (0x03 : UInt8)) ||| ((ps &&& (0x03 : UInt8)) <<< (2 : UInt8))

def transition (ns ps : UInt8) : Int := transitionTable.getD (tableIndex ns ps).toNat 0

/- One turn of the loop over the encoders: the pins of the next one move down. -/
def countTurn (turn : UInt8 × UInt8 × (Fin numEncoders → UInt16)) (encNum : Fin numEncoders) :
    UInt8 × UInt8 × (Fin numEncoders → UInt16) :=
  let (ns, ps, c) := turn
  (ns >>> 2, ps >>> 2, Function.update c encNum (c encNum + ofInt16 (transition ns ps)))

/- `ISR(PCINT0_vect)`. -/
def pcint0 (e : Encoders) (pinb : UInt8) : Encoders :=
  let portValue := pinb &&& encoderMask
  let (_, _, c) := (List.finRange numEncoders).foldl countTurn (portValue, e.status, e.currentValue)
  { e with status := portValue, currentValue := c }

/-! The pins of one encoder. -/

def lane (port : UInt8) (i : Fin numEncoders) : BitVec 2 := (port.toBitVec >>> (2 * i.val)).setWidth 2

def weigh (ps ns : BitVec 2) : Int := transitionTable.getD (ps ++ ns).toNat 0

theorem lowPins (v : UInt8) : (v &&& (0x03 : UInt8)).toNat = (v.toBitVec.setWidth 2).toNat := by
  rw [UInt8.toNat_and, BitVec.toNat_setWidth]
  exact Nat.and_two_pow_sub_one_eq_mod v.toNat 2

theorem tableIndexPins (ns ps : UInt8) : (tableIndex ns ps).toNat = (ps.toBitVec.setWidth 2 ++ ns.toBitVec.setWidth 2).toNat := by
  have small := (ps.toBitVec.setWidth 2).isLt
  rw [tableIndex, UInt8.toNat_or, UInt8.toNat_shiftLeft, lowPins, lowPins, BitVec.toNat_append, Nat.or_comm]
  congr 1
  change (ps.toBitVec.setWidth 2).toNat <<< 2 % 256 = (ps.toBitVec.setWidth 2).toNat <<< 2
  rw [Nat.shiftLeft_eq]
  omega

theorem transitionPins (ns ps : UInt8) : transition ns ps = weigh (ps.toBitVec.setWidth 2) (ns.toBitVec.setWidth 2) := by
  rw [transition, tableIndexPins, weigh]

theorem laneLow (v : UInt8) : v.toBitVec.setWidth 2 = lane v 0 := by simp [lane]

theorem laneHigh (v : UInt8) : (v >>> (2 : UInt8)).toBitVec.setWidth 2 = lane v 1 := by simp [lane]

theorem laneMasked (v : UInt8) (i : Fin numEncoders) : lane (v &&& encoderMask) i = lane v i := by
  have kept : ∀ a < 4, (15#8).getLsbD a = true := by decide
  ext k inside
  have last : i.val < 2 := i.isLt
  simp only [lane, encoderMask, BitVec.getElem_setWidth, BitVec.getLsbD_ushiftRight, UInt8.toBitVec_and, BitVec.getLsbD_and]
  exact (congrArg _ (kept _ (by omega))).trans (Bool.and_true _)

/-! One interrupt, and runs of them. -/

section Interrupts
variable {e : Encoders} {i : Fin numEncoders}

theorem pcint0Value (e : Encoders) (pinb : UInt8) (i : Fin numEncoders) :
    (pcint0 e pinb).currentValue i = e.currentValue i + ofInt16 (weigh (lane e.status i) (lane pinb i)) := by
  rw [← laneMasked pinb i]
  have turns : List.finRange numEncoders = [0, 1] := rfl
  simp only [pcint0, turns, List.foldl_cons, List.foldl_nil, countTurn, transitionPins]
  match i with
  | 0 => rw [Function.update_of_ne (by decide), Function.update_self, laneLow, laneLow]
  | 1 => rw [Function.update_self, Function.update_of_ne (by decide), laneHigh, laneHigh]

theorem pcint0Status (e : Encoders) (pinb : UInt8) : lane (pcint0 e pinb).status i = lane pinb i := laneMasked pinb i

theorem ofInt16Add (v w : Int) : ofInt16 v + ofInt16 w = ofInt16 (v + w) := by
  have first := Int.emod_nonneg v (b := 65536) (by decide)
  have second := Int.emod_nonneg w (b := 65536) (by decide)
  have sum := Int.emod_nonneg (v + w) (b := 65536) (by decide)
  refine UInt16.toNat_inj.mp ?_
  simp only [ofInt16, UInt16.toNat_add, UInt16.toNat_ofNat']
  omega

/- The pins as the interrupts of a run see them. -/
def laneStates (i : Fin numEncoders) (pins : UInt8) (walk : List UInt8) : List (BitVec 2) :=
  (pins :: walk).map (lane · i)

theorem interruptsValue (walk : List UInt8) {pins : UInt8} (seen : lane e.status i = lane pins i) :
    (walk.foldl pcint0 e).currentValue i = e.currentValue i + ofInt16 (total weigh (laneStates i pins walk)) := by
  induction walk generalizing e pins with
  | nil => exact (UInt16.add_zero _).symm
  | cons pinb rest ih =>
    rw [List.foldl_cons, ih (pcint0Status e pinb), pcint0Value, seen, UInt16.add_assoc, ofInt16Add]
    rfl

end Interrupts

/-! The code of the positions. -/

def grayPins (r : Nat) : BitVec 2 := [0b00, 0b01, 0b11, 0b10].getD r 0

def gray (p : Int) : BitVec 2 := grayPins (p % 4).toNat

def OneBit (s t : BitVec 2) : Prop := s ^^^ t ≠ 0b11

instance (s t) : Decidable (OneBit s t) := inferInstanceAs (Decidable (_ ≠ _))

theorem grayOfInt (p : Int) : gray p = grayPins (BitVec.ofInt 2 p).toNat := by
  rw [BitVec.toNat_ofInt]
  rfl

theorem grayDecodes (p q : Int) (near : Near p q) : weigh (gray p) (gray q) = q - p := by
  have table : ∀ r : BitVec 2, weigh (grayPins (r + 1).toNat) (grayPins r.toNat) = -1 ∧
      weigh (grayPins r.toNat) (grayPins r.toNat) = 0 ∧ weigh (grayPins r.toNat) (grayPins (r + 1).toNat) = 1 := by decide
  obtain rfl | rfl | rfl : p = q + 1 ∨ q = p ∨ q = p + 1 := by
    unfold Near at near
    omega
  · rw [grayOfInt, grayOfInt, BitVec.ofInt_add, sub_add_cancel_left]
    exact (table _).1
  · rw [grayOfInt, sub_self]
    exact (table _).2.1
  · rw [grayOfInt, grayOfInt, BitVec.ofInt_add, add_sub_cancel_left]
    exact (table _).2.2

theorem grayFollows (p : Int) (t : BitVec 2) (adjacent : OneBit (gray p) t) : ∃ q, Near p q ∧ gray q = t := by
  have table : ∀ r t : BitVec 2, OneBit (grayPins r.toNat) t →
      grayPins (r + 0b11).toNat = t ∨ grayPins r.toNat = t ∨ grayPins (r + 1).toNat = t := by decide
  rw [grayOfInt] at adjacent
  rcases table _ t adjacent with before | here | behind
  · refine ⟨p - 1, ⟨le_refl _, by omega⟩, ?_⟩
    rw [← before, grayOfInt, Int.sub_eq_add_neg, BitVec.ofInt_add]
    rfl
  · exact ⟨p, ⟨by omega, by omega⟩, (grayOfInt p).trans here⟩
  · refine ⟨p + 1, ⟨by omega, le_refl _⟩, ?_⟩
    rw [← behind, grayOfInt, BitVec.ofInt_add]
    rfl

theorem grayOnto (s : BitVec 2) : ∃ p, gray p = s := by
  have table : ∀ s : BitVec 2, ∃ r : Fin 4, gray r = s := by decide
  obtain ⟨r, here⟩ := table s
  exact ⟨r, here⟩

theorem weighStill (s : BitVec 2) : weigh s s = 0 := by
  revert s
  decide

theorem weighOdd (s t : BitVec 2) : weigh t s = -weigh s t := by
  revert s t
  decide

/-! Walks of the two encoders. -/

section Walks
variable {e : Encoders} {i : Fin numEncoders} {pins : UInt8} {walk : List UInt8}

theorem lanesLift (adjacent : (laneStates i pins walk).IsChain OneBit) :
    ∃ positions, Lifts gray (laneStates i pins walk) positions := by
  obtain ⟨p, here⟩ := grayOnto (lane pins i)
  unfold laneStates at adjacent ⊢
  rw [List.map_cons, ← here] at adjacent ⊢
  exact (liftExists grayFollows adjacent).imp' _ fun _ => id

theorem startSeen (start : e.status = pins &&& encoderMask) (i : Fin numEncoders) : lane e.status i = lane pins i := by
  rw [start, laneMasked]

/- The count follows the net displacement; what the other encoder does only repeats states of this one; and a walk back
undoes the walk. -/
theorem quadratureDecoding (e : Encoders) (pins : UInt8) (walk : List UInt8) (start : e.status = pins &&& encoderMask)
    (adjacent : ∀ i, (laneStates i pins walk).IsChain OneBit) :
    (∀ i, (∃ positions, Lifts gray (laneStates i pins walk) positions) ∧
      ∀ positions, Lifts gray (laneStates i pins walk) positions →
        (walk.foldl pcint0 e).currentValue i = e.currentValue i + ofInt16 (displacement positions)) ∧
    (∀ i (other : Encoders) (otherPins : UInt8) (otherWalk : List UInt8), other.status = otherPins &&& encoderMask →
      (laneStates i otherPins otherWalk).destutter (· ≠ ·) = (laneStates i pins walk).destutter (· ≠ ·) →
      (otherWalk.foldl pcint0 other).currentValue i - other.currentValue i =
        (walk.foldl pcint0 e).currentValue i - e.currentValue i) ∧
    ((walk ++ (pins :: walk).reverse.tail).foldl pcint0 e).currentValue = e.currentValue := by
  refine ⟨fun i => ⟨lanesLift (adjacent i), fun positions lifts => ?_⟩, fun i other otherPins otherWalk otherStart same => ?_, ?_⟩
  · rw [interruptsValue walk (startSeen start i), lifts.total grayDecodes]
  · rw [interruptsValue walk (startSeen start i), interruptsValue otherWalk (startSeen otherStart i), UInt16.add_comm,
      UInt16.add_sub_cancel, UInt16.add_comm, UInt16.add_sub_cancel, ← totalDestutter weighStill, same, totalDestutter weighStill]
  · funext i
    have back : laneStates i pins (walk ++ (pins :: walk).reverse.tail) =
        laneStates i pins walk ++ (laneStates i pins walk).reverse.tail := by
      unfold laneStates
      rw [← List.cons_append, List.map_append, List.map_tail, List.map_reverse]
    rw [interruptsValue _ (startSeen start i), back, totalReturns weighOdd]
    exact UInt16.add_zero _

/- Encoder 0 turns by two while encoder 1 turns by one; the high nibble of the port is not read. -/
theorem turnedByTwo : ([0xF1, 0x07].foldl pcint0 encoderInit).currentValue 0 = encoderInit.currentValue 0 + ofInt16 2 :=
  ((quadratureDecoding encoderInit 0xF0 [0xF1, 0x07] rfl (by decide)).1 0).2 [0, 1, 2] ⟨rfl, by simp [Near]⟩

end Walks

/- What is sampled is what was counted. -/
@[simp] theorem encoderSampled (e : Encoders) (i : Fin numEncoders) : encoderGetValue (encoderSample e) i = e.currentValue i :=
  rfl

end OrazioLogger.Encoder
