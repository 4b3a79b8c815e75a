import OrazioLogger.Support.RingBuffer

/-! uart.c of the atmega2560: the byte rings between the main loop and the two
interrupts. Indices and sizes are `uint8_t`, the capacity is 256. -/
namespace OrazioLogger.Uart
open RingBuffer

def uartBufferSize : Nat := 256

/- `tx_buffer` or `rx_buffer` with its `_start`, `_end` and `_size`; a slot only ever holds a byte. -/
structure Ring where
  buffer : Int → UInt8
  start : UInt8
  stop : UInt8
  size : UInt8

def bufferPut (r : Ring) : Ring :=
  let stop := r.stop + 1
  { r with stop := if stop.toNat ≥ uartBufferSize then 0 else stop, size := r.size + 1 }

def bufferGet (r : Ring) : Ring :=
  let start := r.start + 1
  { r with start := if start.toNat ≥ uartBufferSize then 0 else start, size := r.size - 1 }

def storeLast (r : Ring) (c : UInt8) : Ring :=
  bufferPut { r with buffer := Function.update r.buffer r.stop.toNat c }

/- The rings and the bit `UDRIE0` of `UCSR0B`. -/
structure UART where
  tx : Ring
  rx : Ring
  udrie0 : Bool

def uartInit (uart : UART) (baud : Nat) : Option UART :=
  if baud = 57600 ∨ baud = 115200 then
    some {
      tx := { uart.tx with start := 0, stop := 0, size := 0 }
      rx := { uart.rx with start := 0, stop := 0, size := 0 }
      udrie0 := false }
  else none

/- `none` while the spin loop in front of the atomic block goes on. -/
def putChar (uart : UART) (c : UInt8) : Option UART :=
  if uart.tx.size.toNat ≥ uartBufferSize then none
  else some { uart with tx := storeLast uart.tx c }

def enableTransmit (uart : UART) : UART := { uart with udrie0 := true }

def getChar (uart : UART) : Option (UInt8 × UART) :=
  if uart.rx.size = 0 then none
  else some (uart.rx.buffer uart.rx.start.toNat, { uart with rx := bufferGet uart.rx })

/- `USART0_RX_vect`, and whether the byte was taken. -/
def rxInterrupt (uart : UART) (c : UInt8) : Bool × UART :=
  if uart.rx.size.toNat < uartBufferSize then (true, { uart with rx := storeLast uart.rx c })
  else (false, uart)

/- `USART0_UDRE_vect`, and the byte written to `UDR0`. -/
def udreInterrupt (uart : UART) : Option UInt8 × UART :=
  if uart.tx.size = 0 then (none, { uart with udrie0 := false })
  else (some (uart.tx.buffer uart.tx.start.toNat), { uart with tx := bufferGet uart.tx })

/- The main loop and the interrupts over one UART. `enabling`: the main loop is between the
atomic block of `UART_putChar` and the assignment to `UCSR0B`. The lists record what passed. -/
structure Traffic where
  uart : UART
  enabling : Bool
  put : List UInt8
  sent : List UInt8
  accepted : List UInt8
  got : List UInt8
  refusedAt : List Nat

inductive Event where
  | putChar (c : UInt8) | enableTransmit | getChar | rxInterrupt (c : UInt8) | udreInterrupt
  deriving DecidableEq, Repr

def step (t : Traffic) : Event → Option Traffic
  | .putChar c =>
    if t.enabling then none
    else (putChar t.uart c).map fun uart => { t with uart := uart, enabling := true, put := t.put ++ [c] }
  | .enableTransmit =>
    if t.enabling then some { t with uart := enableTransmit t.uart, enabling := false } else none
  | .getChar =>
    if t.enabling then none
    else (getChar t.uart).map fun r => { t with uart := r.2, got := t.got ++ [r.1] }
  | .rxInterrupt c =>
    let r := rxInterrupt t.uart c
    if r.1 then some { t with uart := r.2, accepted := t.accepted ++ [c] }
    else some { t with uart := r.2, refusedAt := t.refusedAt ++ [t.accepted.length - t.got.length] }
  | .udreInterrupt =>
    if t.uart.udrie0 then
      let r := udreInterrupt t.uart
      some { t with uart := r.2, sent := t.sent ++ r.1.toList }
    else none

def run (t : Traffic) : List Event → Option Traffic
  | [] => some t
  | event :: rest => (step t event).bind fun next => run next rest

def quiet (uart : UART) : Traffic := ⟨uart,false,[],[],[],[],[]⟩

structure Lossless (t : Traffic) : Prop where
  transmitted : t.sent <+: t.put
  received : t.got <+: t.accepted
  refused : ∀ waiting ∈ t.refusedAt, waiting = uartBufferSize
  txSize : t.put.length = t.sent.length + t.uart.tx.size.toNat
  rxSize : t.accepted.length = t.got.length + t.uart.rx.size.toNat

/- The step takes a byte in while 255 are waiting, which turns the size to 0. -/
def Overruns (t : Traffic) : Event → Prop
  | .putChar _ => t.uart.tx.size = 255
  | .rxInterrupt _ => t.uart.rx.size = 255
  | _ => False

instance (t : Traffic) (event : Event) : Decidable (Overruns t event) := by
  cases event <;> unfold Overruns <;> infer_instance

def NeverOverruns (t : Traffic) : List Event → Prop
  | [] => True
  | event :: rest => ¬ Overruns t event ∧ ∀ next, step t event = some next → NeverOverruns next rest

def indices (r : Ring) : Indices := ⟨r.start.toNat,r.stop.toNat,r.size.toNat⟩

def bytes (r : Ring) : List UInt8 := contents r.buffer uartBufferSize (indices r)

/- What a ring took in against what left it, with the number of times its size wrapped.
Once it has wrapped, 256 bytes more are owed than the ring can ever give back. -/
structure Account (r : Ring) (entered left : List UInt8) (wraps : Nat) : Prop where
  counted : entered.length = left.length + r.size.toNat + uartBufferSize * wraps
  valid : wraps = 0 → Valid uartBufferSize (indices r)
  ordered : wraps = 0 → entered = left ++ bytes r

section Rings
variable {r : Ring} {entered left : List UInt8} {wraps : Nat}

theorem sizeBelow (room : r.size ≠ 255) : r.size.toNat < 255 := by
  have small : r.size.toNat ≠ 255 := fun full => room (UInt8.toNat_inj.mp full)
  have bound := r.size.toNat_lt
  omega

theorem sizePositive (some : r.size ≠ 0) : 0 < r.size.toNat :=
  Nat.pos_of_ne_zero fun zero => some (UInt8.toNat_inj.mp zero)

theorem nextIndex (i : UInt8) : ((if (i + 1).toNat ≥ uartBufferSize then 0 else i + 1 : UInt8).toNat : Int) =
    ((i.toNat : Int) + 1) % uartBufferSize := by
  have below : (i + 1).toNat < uartBufferSize := (i + 1).toNat_lt
  rw [if_neg (by omega), UInt8.toNat_add]
  rfl

theorem indicesStore (room : r.size ≠ 255) (c : UInt8) :
    indices (storeLast r c) = push uartBufferSize (indices r) := by
  have below := sizeBelow room
  have grows : ((r.size + 1).toNat : Int) = r.size.toNat + 1 := by
    rw [UInt8.toNat_add, Nat.mod_eq_of_lt (by change r.size.toNat + 1 < 256; omega)]
    rfl
  simp only [indices, push, storeLast, bufferPut, nextIndex, grows]

theorem indicesGet (some : r.size ≠ 0) : indices (bufferGet r) = pop uartBufferSize (indices r) := by
  have positive : (1 : UInt8).toNat ≤ r.size.toNat := sizePositive some
  have shrinks : ((r.size - 1).toNat : Int) = r.size.toNat - 1 := by
    rw [UInt8.toNat_sub_of_le _ _ (UInt8.le_iff_toNat_le.mpr positive)]
    exact Int.ofNat_sub positive
  simp only [indices, pop, bufferGet, nextIndex, shrinks]

theorem emptyAccount (buffer : Int → UInt8) : Account ⟨buffer,0,0,0⟩ [] [] 0 :=
  ⟨rfl, fun _ => validEmpty (by decide), fun _ => by simp [bytes, contentsEmpty (r := indices ⟨buffer,0,0,0⟩) rfl]⟩

theorem storeAccount (account : Account r entered left wraps) (room : r.size ≠ 255) (c : UInt8) :
    Account (storeLast r c) (entered ++ [c]) left wraps := by
  have below := sizeBelow room
  have free : (indices r).size < uartBufferSize := by
    simp only [indices, uartBufferSize]
    omega
  refine ⟨?_, fun never => ?_, fun never => ?_⟩
  · have grows : (indices (storeLast r c)).size = (indices r).size + 1 := congrArg Indices.size (indicesStore room c)
    have counted := account.counted
    simp only [indices] at grows
    rw [List.length_append, List.length_singleton]
    omega
  · rw [indicesStore room]
    exact pushValid (account.valid never) free
  · have appended := @contentsPush _ _ _ r.buffer (account.valid never) free c
    rw [account.ordered never, List.append_assoc, bytes, bytes, indicesStore room]
    exact congrArg (left ++ ·) appended.symm

theorem storeWraps (account : Account r entered left wraps) (full : r.size = 255) (c : UInt8) :
    Account (storeLast r c) (entered ++ [c]) left (wraps + 1) := by
  refine ⟨?_, fun never => absurd never (Nat.succ_ne_zero _), fun never => absurd never (Nat.succ_ne_zero _)⟩
  have counted := account.counted
  have zero : (storeLast r c).size = 0 := by
    change r.size + 1 = 0
    rw [full]
    rfl
  rw [full] at counted
  rw [zero, List.length_append, counted]
  change _ + 255 + uartBufferSize * wraps + 1 = _ + 0 + uartBufferSize * (wraps + 1)
  simp only [uartBufferSize]
  omega

theorem takeAccount (account : Account r entered left wraps) (some : r.size ≠ 0) :
    Account (bufferGet r) entered (left ++ [r.buffer r.start.toNat]) wraps := by
  have positive : 0 < (indices r).size := Int.ofNat_lt.mpr (sizePositive some)
  refine ⟨?_, fun never => ?_, fun never => ?_⟩
  · have shrinks : (indices (bufferGet r)).size = (indices r).size - 1 := congrArg Indices.size (indicesGet some)
    have counted := account.counted
    simp only [indices] at shrinks positive
    rw [List.length_append, List.length_singleton]
    omega
  · rw [indicesGet some]
    exact popValid (account.valid never) positive
  · have taken := @contentsPop _ _ _ r.buffer (account.valid never) positive
    rw [account.ordered never, bytes, taken, bytes, indicesGet some, List.append_assoc]
    rfl

end Rings

structure Accounts (t : Traffic) (txWraps rxWraps : Nat) : Prop where
  tx : Account t.uart.tx t.put t.sent txWraps
  rx : Account t.uart.rx t.accepted t.got rxWraps
  refused : t.refusedAt = []

section Runs
variable {t : Traffic} {txWraps rxWraps : Nat}

theorem initAccounts {uart booted : UART} {baud : Nat} (started : uartInit uart baud = some booted) :
    Accounts (quiet booted) 0 0 := by
  unfold uartInit at started
  split at started
  · cases started
    exact ⟨emptyAccount _, emptyAccount _, rfl⟩
  · contradiction

/- A byte that wraps a size is counted, every other step keeps both counts. -/
theorem stepAccounts (accounts : Accounts t txWraps rxWraps) {event : Event} {next : Traffic}
    (stepped : step t event = some next) :
    ∃ tx rx, Accounts next (txWraps + tx) (rxWraps + rx) ∧ (tx + rx = 0 ↔ ¬ Overruns t event) := by
  cases event with
  | putChar c =>
    simp only [step, putChar] at stepped
    split at stepped
    · contradiction
    · split at stepped
      · contradiction
      · cases stepped
        by_cases full : t.uart.tx.size = 255
        · exact ⟨1, 0, ⟨storeWraps accounts.tx full c, accounts.rx, accounts.refused⟩, by simp [Overruns, full]⟩
        · exact ⟨0, 0, ⟨storeAccount accounts.tx full c, accounts.rx, accounts.refused⟩, by simp [Overruns, full]⟩
  | enableTransmit =>
    simp only [step] at stepped
    split at stepped
    · cases stepped
      exact ⟨0, 0, ⟨accounts.tx, accounts.rx, accounts.refused⟩, by simp [Overruns]⟩
    · contradiction
  | getChar =>
    simp only [step, getChar] at stepped
    split at stepped
    · contradiction
    · split at stepped
      · contradiction
      · cases stepped
        exact ⟨0, 0, ⟨accounts.tx, takeAccount accounts.rx (by assumption), accounts.refused⟩, by simp [Overruns]⟩
  | rxInterrupt c =>
    -- a `uint8_t` is always below 256: the byte is taken whatever waits
    have always : t.uart.rx.size.toNat < uartBufferSize := t.uart.rx.size.toNat_lt
    simp only [step, rxInterrupt, if_pos always, if_true, Option.some.injEq] at stepped
    subst stepped
    by_cases full : t.uart.rx.size = 255
    · exact ⟨0, 1, ⟨accounts.tx, storeWraps accounts.rx full c, accounts.refused⟩, by simp [Overruns, full]⟩
    · exact ⟨0, 0, ⟨accounts.tx, storeAccount accounts.rx full c, accounts.refused⟩, by simp [Overruns, full]⟩
  | udreInterrupt =>
    simp only [step, udreInterrupt] at stepped
    split at stepped
    · split at stepped
      · cases stepped
        exact ⟨0, 0, ⟨by simpa using accounts.tx, accounts.rx, accounts.refused⟩, by simp [Overruns]⟩
      · cases stepped
        exact ⟨0, 0, ⟨takeAccount accounts.tx (by assumption), accounts.rx, accounts.refused⟩, by simp [Overruns]⟩
    · contradiction

theorem runAccounts (events : List Event) (accounts : Accounts t txWraps rxWraps) {last : Traffic}
    (ran : run t events = some last) :
    ∃ tx rx, Accounts last (txWraps + tx) (rxWraps + rx) ∧ (tx + rx = 0 ↔ NeverOverruns t events) := by
  induction events generalizing t txWraps rxWraps with
  | nil =>
    cases ran
    exact ⟨0, 0, accounts, by simp [NeverOverruns]⟩
  | cons event rest ih =>
    obtain ⟨next, stepped, ran⟩ := Option.bind_eq_some_iff.mp ran
    obtain ⟨tx, rx, after, here⟩ := stepAccounts accounts stepped
    obtain ⟨txMore, rxMore, final, later⟩ := ih after ran
    refine ⟨tx + txMore, rx + rxMore, by simpa only [Nat.add_assoc] using final, ?_⟩
    have onlyNext : NeverOverruns t (event :: rest) ↔ ¬ Overruns t event ∧ NeverOverruns next rest := by
      simp [NeverOverruns, stepped]
    rw [onlyNext, ← here, ← later]
    omega

theorem Accounts.lossless (accounts : Accounts t txWraps rxWraps) : Lossless t ↔ txWraps + rxWraps = 0 := by
  have txCounted := accounts.tx.counted
  have rxCounted := accounts.rx.counted
  constructor
  · intro lossless
    have tx := lossless.txSize
    have rx := lossless.rxSize
    simp only [uartBufferSize] at txCounted rxCounted
    omega
  · intro never
    obtain ⟨tx, rx⟩ : txWraps = 0 ∧ rxWraps = 0 := by omega
    refine ⟨⟨_, (accounts.tx.ordered tx).symm⟩, ⟨_, (accounts.rx.ordered rx).symm⟩, ?_, ?_, ?_⟩
    · simp [accounts.refused]
    · simpa [tx] using txCounted
    · simpa [rx] using rxCounted

end Runs

/- In every run from `UART_init`, the rings are first-in first-out and their sizes true as long
as no byte enters a ring that holds 255, and from the first such byte on never again. -/
theorem ringsLossless {uart booted : UART} {baud : Nat} (started : uartInit uart baud = some booted)
    (events : List Event) {last : Traffic} (ran : run (quiet booted) events = some last) :
    Lossless last ↔ NeverOverruns (quiet booted) events := by
  obtain ⟨tx, rx, accounts, never⟩ := runAccounts events (initAccounts started) ran
  rw [accounts.lossless, ← never]
  omega

def stillUart : UART := ⟨⟨fun _ => 0,0,0,0⟩,⟨fun _ => 0,0,0,0⟩,false⟩

def exchange : List Event := [.putChar 0xAA, .enableTransmit, .rxInterrupt 0x55, .udreInterrupt, .getChar, .udreInterrupt]

theorem exchangeLossless :
    ∃ last, run (quiet stillUart) exchange = some last ∧ Lossless last ∧ last.sent = [0xAA] ∧ last.got = [0x55] := by
  refine ⟨_, rfl, ?_, rfl, rfl⟩
  refine (@ringsLossless stillUart _ 57600 rfl exchange _ rfl).mpr ?_
  simp [NeverOverruns, exchange, step, putChar, enableTransmit, Overruns, quiet, stillUart, uartBufferSize, storeLast,
    bufferPut, bufferGet, rxInterrupt, udreInterrupt, getChar]

/- The main loop writes 256 bytes before the transmitter is ready once. -/
def burst : List Event := (List.replicate 256 [.putChar 0xAA, .enableTransmit]).flatten ++ [.udreInterrupt]

/- The 256th byte turns `tx_size` to 0, so the interrupt finds nothing to send and switches itself off. -/
theorem burstForgotten : ∃ last, run (quiet stillUart) burst = some last ∧ last.put.length = 256 ∧ last.sent = [] ∧
    last.uart.tx.size = 0 ∧ last.uart.udrie0 = false ∧ ¬ Lossless last := by
  have outcome : (run (quiet stillUart) burst).map
      (fun t => (t.put.length, t.sent, t.uart.tx.size, t.uart.udrie0)) = some (256, [], 0, false) := by
    decide +kernel
  obtain ⟨last, ran, seen⟩ := Option.map_eq_some_iff.mp outcome
  simp only [Prod.mk.injEq] at seen
  obtain ⟨put, sent, size, off⟩ := seen
  refine ⟨last, ran, put, sent, size, off, fun lossless => ?_⟩
  have counted := lossless.txSize
  rw [put, sent, size] at counted
  exact absurd counted (by decide)

end OrazioLogger.Uart
