import OrazioLogger.Uart

/-! Runs of the UART past the overflow of its sizes. A byte that enters a ring which holds 255 takes all of them with it;
everything else gets through in order. -/
namespace OrazioLogger.Uart
open RingBuffer

/- What is left of the bytes entered when so many whole blocks of them are lost. -/
inductive Survives : Nat → List UInt8 → List UInt8 → Prop where
  | nothing : Survives 0 [] []
  | kept {n : Nat} {entered left : List UInt8} (c : UInt8) (before : Survives n entered left) :
      Survives n (entered ++ [c]) (left ++ [c])
  | lost {n : Nat} {entered left : List UInt8} (block : List UInt8) (full : block.length = uartBufferSize)
      (before : Survives n entered left) : Survives (n + 1) (entered ++ block) left

/- The bytes waiting are the last ones that entered. -/
structure Delivers (n : Nat) (r : Ring) (entered left : List UInt8) : Prop where
  valid : Valid uartBufferSize (indices r)
  waiting : ∃ past, entered = past ++ bytes r ∧ Survives n past left

/- A byte that comes on top of 255. -/
def fillsTx (t : Traffic) : Event → Bool
  | .putChar _ => t.uart.tx.size = 255
  | _ => false

def fillsRx (t : Traffic) : Event → Bool
  | .rxInterrupt _ => t.uart.rx.size = 255
  | _ => false

def times (fills : Traffic → Event → Bool) (t : Traffic) : List Event → Nat
  | [] => 0
  | event :: rest => (if fills t event then 1 else 0) + (step t event).elim 0 fun next => times fills next rest

section Rings
variable {n : Nat} {r : Ring} {entered left : List UInt8}

theorem bytesLength (valid : Valid uartBufferSize (indices r)) : (bytes r).length = r.size.toNat :=
  Int.ofNat_inj.mp (contentsLength valid)

theorem bytesEmpty (none : r.size = 0) : bytes r = [] := by
  refine contentsEmpty ?_
  change ((r.size.toNat : Nat) : Int) = 0
  rw [none]
  rfl

theorem emptyDelivers (buffer : Int → UInt8) : Delivers 0 ⟨buffer, 0, 0, 0⟩ [] [] :=
  ⟨validEmpty (by decide), [], by rw [bytesEmpty rfl]; rfl, .nothing⟩

theorem storeDelivers (delivers : Delivers n r entered left) (room : r.size ≠ 255) (c : UInt8) :
    Delivers n (storeLast r c) (entered ++ [c]) left := by
  have below := sizeBelow room
  have free : (indices r).size < uartBufferSize := by
    simp only [indices, uartBufferSize]
    omega
  obtain ⟨valid, past, split, survives⟩ := delivers
  refine ⟨by rw [indicesStore room]; exact pushValid valid free, past, ?_, survives⟩
  have appended := @contentsPush _ _ _ r.buffer valid free c
  rw [split, List.append_assoc, bytes, bytes, indicesStore room]
  exact congrArg (past ++ ·) appended.symm

/- All that was waiting is gone, and the byte with it. -/
theorem storeEmpties (delivers : Delivers n r entered left) (full : r.size = 255) (c : UInt8) :
    Delivers (n + 1) (storeLast r c) (entered ++ [c]) left := by
  obtain ⟨valid, past, split, survives⟩ := delivers
  have size : (storeLast r c).size = 0 := by
    change r.size + 1 = 0
    rw [full]
    rfl
  have stop : ((storeLast r c).stop.toNat : Int) = (r.stop.toNat + 1) % uartBufferSize := nextIndex r.stop
  have held : (r.size.toNat : Int) = 255 := by
    rw [full]
    rfl
  have startHigh := valid.startHigh
  have stopAt := valid.stopAt
  simp only [indices, uartBufferSize] at startHigh stopAt
  refine ⟨⟨valid.startLow, valid.startHigh, ?_, ?_, ?_⟩, past ++ (bytes r ++ [c]), ?_, survives.lost _ ?_⟩
  · simp only [indices, size]
    decide
  · simp only [indices, size]
    decide
  · change ((storeLast r c).stop.toNat : Int) = ((r.start.toNat : Int) + ((storeLast r c).size.toNat : Nat)) % uartBufferSize
    rw [stop, size]
    change _ = ((r.start.toNat : Int) + 0) % _
    simp only [uartBufferSize]
    omega
  · rw [bytesEmpty size, List.append_nil, split, List.append_assoc]
  · rw [List.length_append, bytesLength valid, full]
    rfl

theorem takeDelivers (delivers : Delivers n r entered left) (some : r.size ≠ 0) :
    Delivers n (bufferGet r) entered (left ++ [r.buffer r.start.toNat]) := by
  have positive : 0 < (indices r).size := Int.ofNat_lt.mpr (sizePositive some)
  obtain ⟨valid, past, split, survives⟩ := delivers
  have taken := @contentsPop _ _ _ r.buffer valid positive
  refine ⟨by rw [indicesGet some]; exact popValid valid positive, past ++ [r.buffer r.start.toNat], ?_, survives.kept _⟩
  rw [split, bytes, taken, bytes, indicesGet some, List.append_assoc]
  rfl

end Rings

structure Deliveries (tx rx : Nat) (t : Traffic) : Prop where
  tx : Delivers tx t.uart.tx t.put t.sent
  rx : Delivers rx t.uart.rx t.accepted t.got
  refused : t.refusedAt = []

section Runs
variable {tx rx : Nat} {t next : Traffic}

theorem stepDeliveries (deliveries : Deliveries tx rx t) {event : Event} (stepped : step t event = some next) :
    Deliveries (tx + if fillsTx t event then 1 else 0) (rx + if fillsRx t event then 1 else 0) next := by
  cases event with
  | putChar c =>
    simp only [step, putChar] at stepped
    split at stepped
    · contradiction
    · split at stepped
      · contradiction
      · cases stepped
        by_cases full : t.uart.tx.size = 255
        · have fills : fillsTx t (.putChar c) = true := decide_eq_true full
          rw [fills, if_pos rfl]
          exact ⟨storeEmpties deliveries.tx full c, deliveries.rx, deliveries.refused⟩
        · have room : fillsTx t (.putChar c) = false := decide_eq_false full
          rw [room, if_neg Bool.false_ne_true]
          exact ⟨storeDelivers deliveries.tx full c, deliveries.rx, deliveries.refused⟩
  | enableTransmit =>
    simp only [step] at stepped
    split at stepped
    · cases stepped
      exact ⟨deliveries.tx, deliveries.rx, deliveries.refused⟩
    · contradiction
  | getChar =>
    simp only [step, getChar] at stepped
    split at stepped
    · contradiction
    · split at stepped
      · contradiction
      · cases stepped
        exact ⟨deliveries.tx, takeDelivers deliveries.rx (by assumption), deliveries.refused⟩
  | rxInterrupt c =>
    -- a `uint8_t` is always below 256: the byte is taken whatever waits
    have always : t.uart.rx.size.toNat < uartBufferSize := t.uart.rx.size.toNat_lt
    simp only [step, rxInterrupt, if_pos always, if_true, Option.some.injEq] at stepped
    subst stepped
    by_cases full : t.uart.rx.size = 255
    · have fills : fillsRx t (.rxInterrupt c) = true := decide_eq_true full
      rw [fills, if_pos rfl]
      exact ⟨deliveries.tx, storeEmpties deliveries.rx full c, deliveries.refused⟩
    · have room : fillsRx t (.rxInterrupt c) = false := decide_eq_false full
      rw [room, if_neg Bool.false_ne_true]
      exact ⟨deliveries.tx, storeDelivers deliveries.rx full c, deliveries.refused⟩
  | udreInterrupt =>
    simp only [step, udreInterrupt] at stepped
    split at stepped
    · split at stepped
      · cases stepped
        have sent : Delivers tx t.uart.tx t.put (t.sent ++ []) := by
          rw [List.append_nil]
          exact deliveries.tx
        exact ⟨sent, deliveries.rx, deliveries.refused⟩
      · cases stepped
        exact ⟨takeDelivers deliveries.tx (by assumption), deliveries.rx, deliveries.refused⟩
    · contradiction

theorem runDeliveries (events : List Event) (deliveries : Deliveries tx rx t) {last : Traffic} (ran : run t events = some last) :
    Deliveries (tx + times fillsTx t events) (rx + times fillsRx t events) last := by
  induction events generalizing t tx rx with
  | nil =>
    cases ran
    exact deliveries
  | cons event rest ih =>
    obtain ⟨next, stepped, ran⟩ := Option.bind_eq_some_iff.mp ran
    have after := ih (stepDeliveries deliveries stepped) ran
    simpa only [times, stepped, Option.elim_some, Nat.add_assoc] using after

end Runs

/- Of 257 bytes written to an idle transmitter the first 256 are lost, and the last one is sent. -/
def overfull : List Event := burst ++ [.putChar 0x55, .enableTransmit, .udreInterrupt]

end OrazioLogger.Uart
