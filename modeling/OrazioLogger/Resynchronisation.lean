import OrazioLogger.FrameDelivery
import OrazioLogger.Installation

/-! A receiver left anywhere by earlier garbage is hunting again after 256 bytes
without a 0xAA, and takes the next frame. -/
namespace OrazioLogger.PacketHandler
open ByteMemory

variable {P σ : Type} {ops : World σ → P → PacketOperations σ} {h : PacketHandler P} {w : World σ}
  {seen : List UInt8}

/- Bytes until the receiver has lost or finished the frame it is in, at most. -/
def patience : List UInt8 → Nat
  | [] => 0
  | [_] => 256
  | [_,_] => 255
  | [_,_,_] => 254
  | _ :: _ :: _ :: s :: rest => s.toNat - rest.length - 1

theorem patienceBound (reading : Reading ops w h seen) : patience seen ≤ 256 := by
  cases reading with
  | payload _ _ named => have := named.high; simp only [patience]; omega
  | complete _ _ named => have := named.high; simp only [patience]; omega
  | _ => simp [patience]

theorem huntingAgain (reading : Reading ops w h seen) (none : patience seen = 0) : h.rxFn = .rxAA := by
  cases reading with
  | hunting fn => exact fn
  | payload _ _ _ _ left more => simp only [patience] at none; omega
  | complete _ _ named _ full => simp only [patience] at none; omega
  | _ => simp [patience] at none

/- A byte other than 0xAA starts nothing and brings every state nearer its end. -/
theorem patienceDrops {c : UInt8} {r : RxResult P σ} {next : List UInt8} (other : c ≠ 0xAA)
    (advance : Advance ops w h seen c r next) : patience next ≤ patience seen - 1 := by
  cases advance with
  | lost => simp [patience]
  | gained early _ reading =>
    match seen, early with
    | [], _ => cases reading; contradiction
    | [_], _ => simp [patience]
    | [_,_], _ => simp [patience]
  | refused => simp [patience]
  | granted named => have := named.high; simp only [patience, List.length_nil]; omega
  | stored => simp only [patience, List.length_append, List.length_singleton]; omega
  | delivered => simp [patience]
  | silent => simp [patience]

theorem rxBytesReading (stable : StableOps ops) (fixed : FixedSizes ops w h) (reading : Reading ops w h seen)
    (bytes : List UInt8) :
    let r := rxBytes ops h w bytes
    FixedSizes ops r.world r.handler ∧ ∃ next, Reading ops r.world r.handler next ∧
      ((∀ c ∈ bytes, c ≠ 0xAA) → patience next ≤ patience seen - bytes.length) := by
  induction bytes generalizing h w seen with
  | nil => exact ⟨fixed, seen, reading, by simp⟩
  | cons c rest ih =>
    obtain ⟨mid, step⟩ := advance stable fixed reading c
    have kept := fixed.keep (rxByteSameNames stable h w c) (rxByteReceiveOnly ops h w c)
    obtain ⟨fixedLater, next, readingLater, bound⟩ := ih kept step.reading
    refine ⟨fixedLater, next, readingLater, fun quiet => ?_⟩
    have first := patienceDrops (quiet c List.mem_cons_self) step
    have later := bound fun d member => quiet d (List.mem_cons_of_mem c member)
    simp only [List.length_cons]
    omega

theorem resynchronised (blank : PacketHandler (PacketOperations σ)) (installed : List (PacketOperations σ))
    (sizes : ∀ op ∈ installed, 4 ≤ op.size.toNat ∧ op.size.toNat ≤ 254) (w : World σ)
    (earlier quiet : List UInt8) (long : 256 ≤ quiet.length) (noAA : ∀ c ∈ quiet, c ≠ 0xAA) :
    let r := rxBytes direct (receiver blank installed) w (earlier ++ quiet)
    r.handler.rxFn = .rxAA ∧
    ∀ op rest b, r.handler.entry op.type = some op → rest.length + 2 = op.size.toNat →
      (op.initializeBufferFn op.type op.size r.world).1 = some b → op.onReceiveFn.isSome →
      Delivered (rxBytes direct r.handler r.world (frame (op.type :: op.size :: rest))) op b
        (op.type :: op.size :: rest) := by
  obtain ⟨fixedEarlier, before, readingEarlier, -⟩ := rxBytesReading stableDirect
    (receiverFixed (h := blank) sizes w) (.hunting (receiverFn blank installed)) earlier
  obtain ⟨fixed, last, reading, bound⟩ := rxBytesReading stableDirect fixedEarlier readingEarlier quiet
  have spent : patience last = 0 := by
    have := bound noAA
    have := patienceBound readingEarlier
    omega
  have fn := huntingAgain reading spent
  rw [rxBytesAppend]
  refine ⟨fn, fun op rest b found full granted callback => ?_⟩
  obtain ⟨s, named⟩ := fixed op.type op found
  obtain rfl : op.size = s := named.size
  exact frameDelivered stableDirect fn found named granted full callback

/- Cut off in a payload, then quiet: the next frame gets through. -/
theorem cutFrameResynchronised :
    let r := rxBytes direct (receiver (blankHandler _) [fourByteOp]) ⟨fun _ => 0, ()⟩
      ([0xAA,0x55,1,4,0xAA] ++ List.replicate 256 0)
    r.handler.rxFn = .rxAA ∧
      Delivered (rxBytes direct r.handler r.world (frame [1,4,9,0])) fourByteOp 100 [1,4,9,0] := by
  obtain ⟨fn, delivers⟩ := resynchronised (blankHandler _) [fourByteOp]
    (by intro op member; rw [List.mem_singleton.mp member]; decide)
    ⟨fun _ => 0, ()⟩ [0xAA,0x55,1,4,0xAA] (List.replicate 256 0) List.length_replicate.ge
    (by intro c member; rw [List.eq_of_mem_replicate member]; decide)
  have kept := rxBytesReceiveOnly direct (receiver (blankHandler _) [fourByteOp]) ⟨fun _ => 0, ()⟩
    ([0xAA,0x55,1,4,0xAA] ++ List.replicate 256 0)
  exact ⟨fn, delivers fourByteOp [9,0] 100 (kept.entry 1) rfl rfl rfl⟩

end OrazioLogger.PacketHandler
