import Mathlib.Algebra.Group.Nat.Even
import Mathlib.Data.List.Induction
import OrazioLogger.VariableSizes

/-! Bytes before a frame. The two states that look for the preamble have no way
back from 0xAA 0xAA to 0xAA, so they find it or not with the parity of the 0xAA before it. -/
namespace OrazioLogger.PacketHandler
open ByteMemory

/- The two bytes of the preamble at `i`. -/
def PairAt (bytes : List UInt8) (i : Nat) : Prop := bytes[i]? = some 0xAA ∧ bytes[i + 1]? = some 0x55
instance (bytes i) : Decidable (PairAt bytes i) := by unfold PairAt; infer_instance

theorem PairAt.append {bytes : List UInt8} {i : Nat} (pair : PairAt bytes i) (more : List UInt8) : PairAt (bytes ++ more) i := by
  have inside : i + 1 < bytes.length := (List.getElem?_eq_some_iff.mp pair.2).1
  refine ⟨?_, ?_⟩
  · rw [List.getElem?_append_left (Nat.lt_of_succ_lt inside)]
    exact pair.1
  · rw [List.getElem?_append_left inside]
    exact pair.2

/- The 0xAA at the end of `bytes`. -/
def trailingAA (bytes : List UInt8) : Nat := (bytes.reverse.takeWhile (· == 0xAA)).length

theorem trailingAnother (bytes : List UInt8) : trailingAA (bytes ++ [0xAA]) = trailingAA bytes + 1 := by
  simp [trailingAA]

theorem trailingNone (bytes : List UInt8) {c : UInt8} (other : c ≠ 0xAA) : trailingAA (bytes ++ [c]) = 0 := by
  simp [trailingAA, other]

theorem trailingLast {bytes : List UInt8} (some : trailingAA bytes ≠ 0) : bytes.getLast? = Option.some 0xAA := by
  induction bytes using List.reverseRecOn with
  | nil => exact absurd rfl some
  | append_singleton bytes c _ =>
    by_cases last : c = 0xAA
    · rw [last, List.getLast?_concat]
    · exact absurd (trailingNone bytes last) some

section Prefix
variable {P σ : Type} {ops : World σ → P → PacketOperations σ} {h : PacketHandler P} {w : World σ}

/- A receiver that has found nothing in `bytes`. -/
structure Hunting (r : RxRun P σ) (w : World σ) (bytes : List UInt8) : Prop where
  world : r.world = w
  trace : r.trace = []
  fn : r.handler.rxFn = if Even (trailingAA bytes) then .rxAA else .rx55

theorem prefixHunts (bytes : List UInt8) (fn : h.rxFn = .rxAA) (noPair : ∀ i, ¬ PairAt bytes i) :
    Hunting (rxBytes ops h w bytes) w bytes := by
  induction bytes using List.reverseRecOn with
  | nil => exact ⟨rfl, rfl, fn⟩
  | append_singleton bytes c ih =>
    have earlier : ∀ i, ¬ PairAt bytes i := fun i pair => noPair i (pair.append [c])
    obtain ⟨world, trace, state⟩ := ih earlier
    rw [rxBytesSnoc]
    generalize rxBytes ops h w bytes = r at world trace state
    by_cases even : Even (trailingAA bytes)
    · rw [if_pos even] at state
      by_cases preamble : c = 0xAA
      · subst preamble
        have odd : ¬ Even (trailingAA (bytes ++ [0xAA])) := by
          rw [trailingAnother, Nat.even_add_one]
          exact not_not.mpr even
        simp only [stepAA state, trace]
        exact ⟨world, rfl, (if_neg odd).symm⟩
      · simp only [stepUnsync state preamble, trace]
        exact ⟨world, rfl, by rw [trailingNone bytes preamble]; exact state⟩
    · rw [if_neg even] at state
      have last : bytes.getLast? = some 0xAA := trailingLast fun zero => even (by rw [zero]; exact Even.zero)
      have other : c ≠ 0x55 := by
        rintro rfl
        refine noPair (bytes.length - 1) ⟨?_, ?_⟩
        · rw [List.getLast?_eq_getElem?] at last
          rw [List.getElem?_append_left (List.getElem?_eq_some_iff.mp last).1]
          exact last
        · have nonempty : bytes.length - 1 + 1 = bytes.length := by
            rw [List.getLast?_eq_getElem?] at last
            have := (List.getElem?_eq_some_iff.mp last).1
            omega
          rw [nonempty, List.getElem?_append_right le_rfl, Nat.sub_self]
          rfl
      simp only [stepHalfPreamble state other, trace]
      refine ⟨world, rfl, ?_⟩
      by_cases preamble : c = 0xAA
      · rw [preamble, trailingAnother, if_pos (Nat.even_add_one.mpr even)]
      · rw [trailingNone bytes preamble]
        rfl

end Prefix

section Lost
variable {P σ : Type} {ops : World σ → P → PacketOperations σ} {h : PacketHandler P} {w : World σ} {p : P} {s : PacketSize}

/- What a receiver has cost of the last `n` bytes, begun while hunting: a packet of `p` all but its checksum, or the rest is to come. -/
def Spent (p : P) (s : PacketSize) (h : PacketHandler P) (n : Nat) : Prop :=
  match h.rxFn with
  | .rxAA => True
  | .rx55 => 1 ≤ n
  | .rxType => 2 ≤ n
  | .rxSize => 3 ≤ n
  | .rxPayload => h.rxCurrentOp = some p → s.toNat + 2 ≤ n + bytesLeft h.rxBytesToRead
  | .rxChecksum => h.rxCurrentOp = some p → s.toNat + 2 ≤ n

theorem huntingSpent (fn : h.rxFn = .rxAA) (n : Nat) : Spent p s h n := by
  simp only [Spent, fn]

theorem rxSizeSpent {n : Nat} (fn : h.rxFn = .rxSize) (spent : Spent p s h n) (sized : (ops w p).size = s)
    (low : 4 ≤ s.toNat) (high : s.toNat ≤ 254) (c : UInt8) : Spent p s (rxByte ops h w c).handler (n + 1) := by
  simp only [Spent, fn] at spent
  simp only [rxByte, fn, rxSize]
  split
  · simp only [Spent, fn]
    omega
  · rename_i q current
    split
    · exact huntingSpent rfl _
    · rename_i accepted
      split
      · exact huntingSpent rfl _
      · simp only [Spent]
        intro here
        obtain rfl : q = p := Option.some.inj (current.symm.trans here)
        have notAny : (ops w q).size ≠ packetSizeAny := by
          rw [sized]
          rintro rfl
          exact absurd high (by decide)
        have same : s = c := by
          by_contra wrong
          exact accepted ⟨notAny, by rwa [sized]⟩
        rw [← same, bytesLeftOf, if_pos (by omega)]
        omega

theorem rxByteSpent {n : Nat} (spent : Spent p s h n) (sized : (ops w p).size = s) (low : 4 ≤ s.toNat)
    (high : s.toNat ≤ 254) (c : UInt8) :
    Spent p s (rxByte ops h w c).handler (n + 1) ∧
      (n < s.toNat + 2 → ∀ b m, (p, b, m) ∉ calls (rxByte ops h w c).trace) := by
  cases fn : h.rxFn with
  | rxAA =>
    simp only [rxByte, fn, rxAA]
    split
    · exact ⟨Nat.le_add_left 1 n, by simp [calls]⟩
    · exact ⟨huntingSpent rfl _, by simp [calls]⟩
  | rx55 =>
    simp only [Spent, fn] at spent
    simp only [rxByte, fn, rx55]
    split
    · exact ⟨Nat.succ_le_succ spent, by simp [calls]⟩
    · exact ⟨huntingSpent rfl _, by simp [calls]⟩
  | rxType =>
    simp only [Spent, fn] at spent
    simp only [rxByte, fn, rxType]
    split
    · split
      · exact ⟨huntingSpent rfl _, by simp [calls]⟩
      · exact ⟨Nat.succ_le_succ spent, by simp [calls]⟩
    · exact ⟨huntingSpent rfl _, by simp [calls]⟩
  | rxSize =>
    refine ⟨rxSizeSpent fn spent sized low high c, fun _ b m => ?_⟩
    simp only [rxByte, fn, rxSize]
    split
    · simp [calls]
    · split
      · simp [calls]
      · split <;> simp [calls, RxEvent.call]
  | rxPayload =>
    simp only [Spent, fn] at spent
    refine ⟨?_, fun _ b m => ?_⟩
    · simp only [rxByte, fn, rxPayload, oneLeft]
      split
      · rename_i last
        rw [last] at spent
        exact spent
      · rename_i more
        rw [bytesLeftNext more] at spent
        intro here
        have counted := spent here
        dsimp only
        omega
    · simp only [rxByte, fn, rxPayload]
      cases h.rxBufferEnd <;> split <;> simp [calls, RxEvent.call]
  | rxChecksum =>
    simp only [Spent, fn] at spent
    simp only [rxByte, fn, rxChecksumByte]
    split
    · split
      · rename_i q packet current found
        split
        · refine ⟨huntingSpent rfl _, fun short b m called => ?_⟩
          obtain ⟨rfl, -, -⟩ : p = q ∧ b = packet ∧ m = w.memory := by simpa [calls, RxEvent.call] using called
          have := spent current
          omega
        · exact ⟨huntingSpent rfl _, by simp [calls]⟩
      · exact ⟨huntingSpent rfl _, by simp [calls]⟩
    · exact ⟨huntingSpent rfl _, by simp [calls]⟩

/- Too few bytes for a packet of `p`. -/
theorem tooFewBytes (stable : StableOps ops) (bytes : List UInt8) {n : Nat} (spent : Spent p s h n)
    (sized : (ops w p).size = s) (low : 4 ≤ s.toNat) (high : s.toNat ≤ 254) (short : n + bytes.length ≤ s.toNat + 2)
    (b : Addr) (m : Memory) : (p, b, m) ∉ calls (rxBytes ops h w bytes).trace := by
  induction bytes generalizing h w n with
  | nil => simp [rxBytes, calls]
  | cons c rest ih =>
    rw [List.length_cons] at short
    obtain ⟨next, silent⟩ := rxByteSpent spent sized low high c
    rw [rxBytes, callsAppend, List.mem_append]
    rintro (first | later)
    · exact silent (by omega) b m first
    · exact ih next (((rxByteSameNames stable h w c).size p).trans sized) (by omega) later

end Lost

/- `g` and then the frame of `t :: s :: rest`, whose preamble is the first one there is. -/
theorem prefixedFrame {P σ : Type} (ops : World σ → P → PacketOperations σ) (stable : StableOps ops) (h : PacketHandler P)
    (w : World σ) (p : P) (t : PacketType) (s : PacketSize) (b : Addr) (g rest : List UInt8) (fn : h.rxFn = .rxAA)
    (found : h.entry t = some p) (typed : (ops w p).type = t)
    (low : 4 ≤ s.toNat) (high : s.toNat ≤ 254) (full : rest.length + 2 = s.toNat)
    (granted : ((ops w p).initializeBufferFn t (ops w p).size w).1 = some b) (callback : ∀ v, (ops v p).onReceiveFn.isSome)
    (first : ∀ i < g.length, ¬ PairAt (g ++ frame (t :: s :: rest)) i) :
    (∃ m, calls (rxBytes ops h w (g ++ frame (t :: s :: rest))).trace = [(p, b, m)] ∧ load m b s.toNat = t :: s :: rest) ↔
      (ops w p).size = s ∧ Even (trailingAA g) := by
  have noPair : ∀ i, ¬ PairAt g i := by
    intro i pair
    have inside : i + 1 < g.length := (List.getElem?_eq_some_iff.mp pair.2).1
    exact first i (Nat.lt_of_succ_lt inside) (pair.append _)
  obtain ⟨world, trace, state⟩ := @prefixHunts _ _ ops h w g fn noPair
  have only := rxBytesReceiveOnly ops h w g
  rw [rxBytesAppend]
  simp only
  generalize rxBytes ops h w g = before at world trace state only
  rw [world, trace, List.nil_append]
  constructor
  · rintro ⟨m, call, stored⟩
    have handed : (p, b, m) ∈ calls (rxBytes ops before.handler w (frame (t :: s :: rest))).trace := by
      rw [call]
      exact List.mem_singleton_self _
    have size : (ops w p).size = s := by
      rw [← callsFromTable stable _ (elsewhereFromTable (by rw [state]; split <;> simp) (by rw [state]; split <;> simp)) handed]
      have second := congrArg (fun bytes => bytes.getD 1 0) stored
      obtain ⟨n, count⟩ : ∃ n, s.toNat = n + 2 := ⟨_, full.symm⟩
      rw [count, loadCons, loadCons] at second
      exact second
    refine ⟨size, ?_⟩
    by_contra odd
    rw [if_neg odd] at state
    rw [show frame (t :: s :: rest) = 0xAA :: 0x55 :: t :: s :: (rest ++ [xorSum (t :: s :: rest)]) from rfl, rxBytes,
      stepHalfPreamble state (by decide)] at handed
    refine tooFewBytes stable _ (huntingSpent rfl 0) size low high ?_ b m handed
    simp only [List.length_cons, List.length_append, List.length_nil]
    omega
  · rintro ⟨size, even⟩
    rw [if_pos even] at state
    rw [size] at granted
    have delivered := frameDelivered stable state (by rw [only.entry]; exact found) ⟨typed, size, low, high⟩ granted full
      (callback _)
    obtain ⟨m, call, stored⟩ := delivered.call
    have length : (t :: s :: rest).length = s.toNat := full
    rw [length] at stored
    exact ⟨m, call, stored⟩

theorem preambleAfterAA :
    let r := rxBytes direct (receiver (blankHandler _) [fourByteOp]) ⟨fun _ => 0, ()⟩ ([0xAA] ++ frame [1, 4, 7, 0])
    (∀ i < 1, ¬ PairAt ([0xAA] ++ frame [1, 4, 7, 0]) i) ∧ calls r.trace = [] := by
  decide

theorem frameBehindNoise :
    let g : List UInt8 := [3, 0xAA, 0xAA]
    (∀ i < g.length, ¬ PairAt (g ++ frame [1, 4, 7, 0]) i) ∧
    ∃ m, calls (rxBytes direct (receiver (blankHandler _) [fourByteOp]) ⟨fun _ => 0, ()⟩ (g ++ frame [1, 4, 7, 0])).trace =
      [(fourByteOp, 100, m)] ∧ load m 100 4 = [1, 4, 7, 0] := by
  have first : ∀ i < 3, ¬ PairAt ([3, 0xAA, 0xAA] ++ frame [1, 4, 7, 0]) i := by decide
  exact ⟨first, (prefixedFrame direct stableDirect (receiver (blankHandler _) [fourByteOp]) ⟨fun _ => 0, ()⟩ fourByteOp 1 4 100
    [3, 0xAA, 0xAA] [7, 0] rfl rfl rfl (by decide) (by decide) rfl rfl (fun _ => rfl) first).mpr
      ⟨rfl, by decide⟩⟩

end OrazioLogger.PacketHandler
