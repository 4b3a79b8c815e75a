import OrazioLogger.Receiver

/-! A whole valid frame fed to a hunting receiver: it is read to its checksum
byte without an error and handed over once, with the bytes that were sent. -/
namespace OrazioLogger.PacketHandler
open ByteMemory

variable {P σ : Type}

def RxEvent.call : RxEvent P → Option (P × Addr × Memory)
  | .onReceive p packet memory => some (p,packet,memory)
  | _ => none

def calls (trace : List (RxEvent P)) : List (P × Addr × Memory) := trace.filterMap RxEvent.call

theorem callsAppend (xs ys : List (RxEvent P)) : calls (xs ++ ys) = calls xs ++ calls ys := by simp [calls]

variable {ops : World σ → P → PacketOperations σ} {h : PacketHandler P} {w : World σ}

structure Quiet (statuses : List PacketStatus) (trace : List (RxEvent P)) : Prop where
  positive : ∀ status ∈ statuses, 0 < status.code
  noCall : calls trace = []

theorem Quiet.append {ss us : List PacketStatus} {xs ys : List (RxEvent P)} (a : Quiet ss xs) (b : Quiet us ys) :
    Quiet (ss ++ us) (xs ++ ys) where
  positive := by
    intro status member
    rcases List.mem_append.mp member with here | there
    · exact a.positive status here
    · exact b.positive status there
  noCall := by rw [callsAppend, a.noCall, b.noCall, List.append_nil]

theorem quietWrite {status : PacketStatus} {a : Addr} {c : UInt8} (positive : 0 < status.code) :
    Quiet (P := P) [status] [.write a c] := ⟨by simpa using positive, rfl⟩

variable (ops h w) in
theorem rxBytesReceiveOnly (bytes : List UInt8) : ReceiveOnly h (rxBytes ops h w bytes).handler := by
  induction bytes generalizing h w with
  | nil => exact ⟨rfl,rfl,rfl,rfl⟩
  | cons c rest ih => exact (rxByteReceiveOnly ops h w c).trans (ih _ _)

/- From anywhere in a payload, the bytes still missing fill the same buffer. -/
theorem fillRest (stable : StableOps ops) {p : P} {t : PacketType} {s : PacketSize} {b : Addr}
    (rest more : List UInt8) (reading : Reading ops w h (0xAA :: 0x55 :: t :: s :: rest))
    (filling : Filling h w p b (t :: s :: rest)) (fits : rest.length + more.length + 2 = s.toNat) :
    let r := rxBytes ops h w more
    Quiet r.statuses r.trace ∧ Reading ops r.world r.handler (0xAA :: 0x55 :: t :: s :: (rest ++ more)) ∧
      Filling r.handler r.world p b (t :: s :: (rest ++ more)) ∧ r.world.env = w.env := by
  induction more generalizing h w rest with
  | nil => simpa [rxBytes] using ⟨⟨by simp, rfl⟩, reading, filling⟩
  | cons c more ih =>
    simp only [List.length_cons] at fits
    cases reading with
    | complete _ _ _ _ full => omega
    | payload fn found named mine left some =>
      obtain ⟨status, k, v, result, positive, rfl, filled, reading⟩ :=
        payloadStored stable fn found named mine left some c
      obtain rfl := Option.some.inj (mine.current.symm.trans filling.current)
      obtain rfl := Option.some.inj (mine.packet.symm.trans filling.packet)
      obtain ⟨quiet, last, whole, env⟩ := ih (rest ++ [c]) reading filled
        (by simp only [List.length_append, List.length_singleton]; omega)
      simp only [List.append_assoc, List.singleton_append] at last whole
      simp only [rxBytes, result]
      exact ⟨(quietWrite positive).append quiet, last, whole, env⟩

/- A frame up to its type byte. -/
theorem typeArrives {p : P} {t : PacketType} (fn : h.rxFn = .rxAA) (found : h.entry t = some p) :
    rxBytes ops h w [0xAA,0x55,t] = ⟨[.syncAA,.sync55,.syncType],
      { h with rxFn := .rxSize, rxChecksum := 0 ^^^ t, rxCurrentOp := some p }, w, []⟩ := by
  simp only [rxBytes, stepAA fn]
  rw [step55 rfl, stepType rfl (p := p) (by simpa [entry] using found)]
  rfl

/- A receiver that has all of a frame but its checksum byte. -/
structure Arrived (r : RxRun P σ) (p : P) (b : Addr) (body : List UInt8) : Prop where
  quiet : Quiet r.statuses r.trace
  fn : r.handler.rxFn = .rxChecksum
  filling : Filling r.handler r.world p b body

theorem bodyArrives (stable : StableOps ops) {p : P} {t : PacketType} {s : PacketSize} {b : Addr}
    {rest : List UInt8} (fn : h.rxFn = .rxAA) (found : h.entry t = some p) (named : Named ops w p t s)
    (granted : ((ops w p).initializeBufferFn t s w).1 = some b) (full : rest.length + 2 = s.toNat) :
    let r := rxBytes ops h w (0xAA :: 0x55 :: t :: s :: rest)
    Arrived r p b (t :: s :: rest) ∧ r.world.env = ((ops w p).initializeBufferFn t s w).2.env := by
  let typed : PacketHandler P := { h with rxFn := .rxSize, rxChecksum := 0 ^^^ t, rxCurrentOp := some p }
  have header : rxBytes ops h w [0xAA,0x55,t] = ⟨[.syncAA,.sync55,.syncType], typed, w, []⟩ := typeArrives fn found
  obtain ⟨k, v, result, world, filling, reading⟩ :=
    sizeGranted stable (h := typed) rfl rfl found named (by simp [typed]) granted
  obtain ⟨quiet, last, filled, env⟩ := fillRest stable [] rest reading filling (by simpa [Nat.add_comm] using full)
  have early : Quiet (P := P) [.syncAA,.sync55,.syncType,.syncSize]
      [.initializeBuffer p (some b), .write b t, .write (b + 1) s] := ⟨by simp [PacketStatus.code], rfl⟩
  rw [show 0xAA :: 0x55 :: t :: s :: rest = [0xAA,0x55,t] ++ s :: rest from rfl, rxBytesAppend, header]
  simp only [rxBytes, result]
  refine ⟨⟨early.append quiet, ?_, filled⟩, env.trans (by rw [world])⟩
  cases last with
  | complete fn => exact fn
  | payload _ _ _ _ left more => simp only [List.nil_append] at left; omega

/- A frame received without an error, and its single call. -/
structure Delivered (r : RxRun P σ) (p : P) (b : Addr) (body : List UInt8) : Prop where
  positive : ∀ status ∈ r.statuses, 0 < status.code
  fn : r.handler.rxFn = .rxAA
  call : ∃ memory, calls r.trace = [(p,b,memory)] ∧ load memory b body.length = body

theorem frameDelivered (stable : StableOps ops) {p : P} {t : PacketType} {s : PacketSize} {b : Addr}
    {rest : List UInt8} (fn : h.rxFn = .rxAA) (found : h.entry t = some p) (named : Named ops w p t s)
    (granted : ((ops w p).initializeBufferFn t s w).1 = some b) (full : rest.length + 2 = s.toNat)
    (callback : (ops (rxBytes ops h w (0xAA :: 0x55 :: t :: s :: rest)).world p).onReceiveFn.isSome) :
    Delivered (rxBytes ops h w (frame (t :: s :: rest))) p b (t :: s :: rest) := by
  obtain ⟨arrived, -⟩ := bodyArrives stable fn found named granted full
  obtain ⟨onReceive, installed⟩ := Option.isSome_iff_exists.mp callback
  rw [show frame (t :: s :: rest) = (0xAA :: 0x55 :: t :: s :: rest) ++ [xorSum (t :: s :: rest)] from rfl,
    rxBytesSnoc]
  generalize rxBytes ops h w (0xAA :: 0x55 :: t :: s :: rest) = r at arrived installed
  obtain ⟨quiet, last, filled⟩ := arrived
  have delivered := stepDelivered last filled.current filled.packet installed
  rw [filled.checksum] at delivered
  simp only [delivered]
  refine ⟨?_, rfl, _, ?_, filled.stored⟩
  · intro status member
    rcases List.mem_append.mp member with early | final
    · exact quiet.positive status early
    · simp only [List.mem_singleton] at final
      subst status
      decide
  · rw [callsAppend, quiet.noCall]
    rfl

end OrazioLogger.PacketHandler
