import OrazioLogger.Resynchronisation
import Mathlib.Data.List.Forall2

/-! Whatever is fed to a receiver, each call it makes answers one whole frame of
the stream, and it writes nowhere but in the buffer it was given. -/
namespace OrazioLogger.PacketHandler
open ByteMemory

variable {σ : Type} {h : PacketHandler (PacketOperations σ)} {w : World σ} {seen : List UInt8}

/- Bytes skipped, then one frame. -/
structure Segment where
  gap : List UInt8
  body : List UInt8

def Segment.bytes (g : Segment) : List UInt8 := g.gap ++ frame g.body

/- A call of `on_receive` and the frame of the stream it stands for. -/
structure Answers (h : PacketHandler (PacketOperations σ)) (call : PacketOperations σ × Addr × Memory)
    (g : Segment) : Prop where
  installed : h.entry call.1.type = some call.1
  shape : ∃ rest, g.body = call.1.type :: call.1.size :: rest ∧ g.body.length = call.1.size.toNat
  buffer : load call.2.2 call.2.1 call.1.size.toNat = g.body

theorem Answers.keep {k : PacketHandler (PacketOperations σ)} {call g} (only : ReceiveOnly h k)
    (answers : Answers k call g) : Answers h call g :=
  ⟨(only.entry _).symm.trans answers.installed, answers.shape, answers.buffer⟩

/- Every write after a granted buffer, and before the next one, lies inside it. -/
def WritesInside : Option (Addr × Nat) → List (RxEvent (PacketOperations σ)) → Prop
  | _, [] => True
  | _, .initializeBuffer op packet :: rest => WritesInside (packet.map fun b => (b, op.size.toNat)) rest
  | buffer, .write a _ :: rest => (∃ b n, buffer = some (b,n) ∧ Inside b n a) ∧ WritesInside buffer rest
  | buffer, .onReceive .. :: rest => WritesInside buffer rest

/- A receiver in a payload writes to the buffer granted last. -/
def Holds (h : PacketHandler (PacketOperations σ)) (buffer : Option (Addr × Nat)) : List UInt8 → Prop
  | _ :: _ :: _ :: s :: _ => ∃ b, h.rxCurrentPacket = some b ∧ buffer = some (b, s.toNat)
  | _ => True

theorem advanceCalls {c : UInt8} {r : RxResult (PacketOperations σ) σ} {next : List UInt8}
    (step : Advance direct w h seen c r next) :
    (calls r.trace = [] ∧ (next = [] ∨ next = seen ++ [c])) ∨
    ∃ call body, next = [] ∧ calls r.trace = [call] ∧ seen ++ [c] = frame body ∧ ∀ gap, Answers h call ⟨gap,body⟩ := by
  cases step with
  | lost _ _ _ trace => exact Or.inl ⟨by rw [trace]; rfl, Or.inl rfl⟩
  | gained => exact Or.inl ⟨rfl, Or.inr rfl⟩
  | refused => exact Or.inl ⟨rfl, Or.inl rfl⟩
  | granted => exact Or.inl ⟨rfl, Or.inr rfl⟩
  | stored => exact Or.inl ⟨rfl, Or.inr rfl⟩
  | silent => exact Or.inl ⟨rfl, Or.inl rfl⟩
  | @delivered p t s b rest onReceive named found filling full installed =>
    obtain ⟨rfl, rfl, -, -⟩ := named
    have length : (p.type :: p.size :: rest).length = p.size.toNat := by simpa [direct] using full
    refine Or.inr ⟨_, p.type :: p.size :: rest, rfl, rfl, by simp [frame, direct], fun gap => ⟨found, ⟨rest, rfl, length⟩, ?_⟩⟩
    have stored := filling.stored
    simp only [direct] at stored
    rwa [length] at stored

/- `gap` and `seen` are what has been skipped since the last segment and what
the receiver takes for the beginning of the next one. -/
theorem callsSegmented (fixed : FixedSizes direct w h) (reading : Reading direct w h seen)
    (gap bytes : List UInt8) :
    ∃ segments tail, gap ++ (seen ++ bytes) = segments.flatMap Segment.bytes ++ tail ∧
      List.Forall₂ (Answers h) (calls (rxBytes direct h w bytes).trace) segments := by
  induction bytes generalizing h w seen gap with
  | nil => exact ⟨[], gap ++ seen, by simp, .nil⟩
  | cons c rest ih =>
    obtain ⟨next, step⟩ := advance stableDirect fixed reading c
    have only := rxByteReceiveOnly direct h w c
    have kept := fixed.keep (rxByteSameNames stableDirect h w c) only
    have after := step.reading
    simp only [rxBytes, callsAppend]
    rcases advanceCalls step with ⟨quiet, here⟩ | ⟨call, body, rfl, one, whole, answers⟩
    · rw [quiet, List.nil_append]
      rcases here with rfl | rfl
      · obtain ⟨segments, tail, split, matched⟩ := ih kept after (gap ++ (seen ++ [c]))
        exact ⟨segments, tail, by simpa using split, matched.imp fun _ _ => Answers.keep only⟩
      · obtain ⟨segments, tail, split, matched⟩ := ih kept after gap
        exact ⟨segments, tail, by simpa using split, matched.imp fun _ _ => Answers.keep only⟩
    · obtain ⟨segments, tail, split, matched⟩ := ih kept after []
      refine ⟨⟨gap,body⟩ :: segments, tail, ?_, ?_⟩
      · calc gap ++ (seen ++ c :: rest)
            = gap ++ frame body ++ rest := by rw [← whole]; simp
          _ = gap ++ frame body ++ (segments.flatMap Segment.bytes ++ tail) := by rw [← split]; simp
          _ = (⟨gap,body⟩ :: segments).flatMap Segment.bytes ++ tail := by simp [Segment.bytes]
      · rw [one]
        exact .cons (answers gap) (matched.imp fun _ _ => Answers.keep only)

/- The buffer in force after the events of `trace`. -/
def bufferAfter : Option (Addr × Nat) → List (RxEvent (PacketOperations σ)) → Option (Addr × Nat)
  | buffer, [] => buffer
  | _, .initializeBuffer op packet :: rest => bufferAfter (packet.map fun b => (b, op.size.toNat)) rest
  | buffer, _ :: rest => bufferAfter buffer rest

theorem writesInsideAppend (buffer : Option (Addr × Nat)) (xs ys : List (RxEvent (PacketOperations σ))) :
    WritesInside buffer (xs ++ ys) ↔ WritesInside buffer xs ∧ WritesInside (bufferAfter buffer xs) ys := by
  induction xs generalizing buffer with
  | nil => simp [WritesInside, bufferAfter]
  | cons event rest ih => cases event <;> simp [WritesInside, bufferAfter, ih, and_assoc]

theorem advanceWrites {c : UInt8} {r : RxResult (PacketOperations σ) σ} {next : List UInt8}
    {buffer : Option (Addr × Nat)} (step : Advance direct w h seen c r next) (holds : Holds h buffer seen) :
    WritesInside buffer r.trace ∧ Holds r.handler (bufferAfter buffer r.trace) next := by
  cases step with
  | lost _ _ _ trace => rw [trace]; exact ⟨trivial, trivial⟩
  | gained early =>
    refine ⟨trivial, ?_⟩
    match seen, early with
    | [], _ => trivial
    | [_], _ => trivial
    | [_,_], _ => trivial
  | refused => exact ⟨trivial, trivial⟩
  | @granted p t s b k v named found granted world filling reading =>
    obtain ⟨rfl, rfl, low, -⟩ := named
    simp only [direct] at low
    refine ⟨⟨⟨b, p.size.toNat, rfl, ?_⟩, ⟨b, p.size.toNat, rfl, ?_⟩, trivial⟩, b, filling.packet, rfl⟩
    · unfold Inside; omega
    · unfold Inside; omega
  | @stored p t s b rest c status k v named found before room positive world filling reading =>
    obtain ⟨b', packet, rfl⟩ := holds
    obtain rfl := Option.some.inj (packet.symm.trans before.packet)
    refine ⟨⟨⟨b', s.toNat, rfl, ?_⟩, trivial⟩, b', filling.packet, rfl⟩
    unfold Inside
    omega
  | delivered => exact ⟨trivial, trivial⟩
  | silent => exact ⟨trivial, trivial⟩

theorem runWrites (fixed : FixedSizes direct w h) (reading : Reading direct w h seen)
    {buffer : Option (Addr × Nat)} (holds : Holds h buffer seen) (bytes : List UInt8) :
    WritesInside buffer (rxBytes direct h w bytes).trace := by
  induction bytes generalizing h w seen buffer with
  | nil => trivial
  | cons c rest ih =>
    obtain ⟨next, step⟩ := advance stableDirect fixed reading c
    have kept := fixed.keep (rxByteSameNames stableDirect h w c) (rxByteReceiveOnly direct h w c)
    obtain ⟨inside, holdsNext⟩ := advanceWrites step holds
    simp only [rxBytes]
    exact (writesInsideAppend _ _ _).mpr ⟨inside, ih kept step.reading holdsNext⟩

theorem receivedAreFrames (blank : PacketHandler (PacketOperations σ)) (installed : List (PacketOperations σ))
    (sizes : ∀ op ∈ installed, 4 ≤ op.size.toNat ∧ op.size.toNat ≤ 254) (w : World σ) (stream : List UInt8) :
    let r := rxBytes direct (receiver blank installed) w stream
    (∃ segments tail, stream = segments.flatMap Segment.bytes ++ tail ∧
      List.Forall₂ (Answers (receiver blank installed)) (calls r.trace) segments) ∧
    WritesInside none r.trace := by
  have fixed := receiverFixed (h := blank) sizes w
  have reading : Reading direct w (receiver blank installed) [] := .hunting (receiverFn blank installed)
  exact ⟨by simpa using callsSegmented fixed reading [] stream, runWrites fixed reading trivial stream⟩

theorem noisyFrameReceived :
    let r := rxBytes direct (receiver (blankHandler _) [fourByteOp]) ⟨fun _ => 0, ()⟩ (0x13 :: frame [1,4,7,0])
    (∃ segments tail, 0x13 :: frame [1,4,7,0] = segments.flatMap Segment.bytes ++ tail ∧
      List.Forall₂ (Answers (receiver (blankHandler _) [fourByteOp])) (calls r.trace) segments) ∧
    WritesInside none r.trace :=
  receivedAreFrames (blankHandler _) [fourByteOp] (by intro op member; rw [List.mem_singleton.mp member]; decide)
    ⟨fun _ => 0, ()⟩ (0x13 :: frame [1,4,7,0])

end OrazioLogger.PacketHandler
