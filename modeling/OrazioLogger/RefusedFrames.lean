import OrazioLogger.OrazioComm

/-! What is executed against what was sent, on a line without errors. A receiver
that takes no preamble but those of sent frames executes a subsequence of them. -/
namespace OrazioLogger.RefusedFrames
open ByteMemory PacketHandler DeferredPacketHandler

variable {A τ : Type}

/- A packet of an installed type, as its bytes. -/
structure Sendable (installs : List (Install A)) (body : List UInt8) : Prop where
  shape : ∃ i ∈ installs, ∃ rest, body = i.type :: i.size :: rest ∧ rest.length + 2 = i.size.toNat

/- The packets whose action has run, as the action saw them. -/
def executedPackets (r : Run A τ) : List (List UInt8) :=
  r.executed.map fun call => packetBytes call.memory call.packet

/- What has been fed is whole frames and the first byte of the next one. -/
def AtPreamble (bodies : List (List UInt8)) (fed : List UInt8) : Prop :=
  ∃ k < bodies.length, fed = (bodies.take k).flatMap frame ++ [0xAA]
instance (bodies fed) : Decidable (AtPreamble bodies fed) := by unfold AtPreamble; infer_instance

/- A 0x55 taken for the second byte of a preamble is one. -/
def StepClear (bodies : List (List UInt8)) (r : Run A τ) (fed : List UInt8) : Operation → Prop
  | .rx c => r.machine.outside.baseHandler.rxFn = .rx55 → c = 0x55 → AtPreamble bodies fed
  | .processPending => True
instance (bodies) (r : Run A τ) (fed) : (operation : Operation) → Decidable (StepClear bodies r fed operation)
  | .rx c => inferInstanceAs (Decidable (r.machine.outside.baseHandler.rxFn = .rx55 → c = 0x55 → AtPreamble bodies fed))
  | .processPending => inferInstanceAs (Decidable True)

def RunClear (act : A → Addr → Surroundings τ → Surroundings τ) (bodies : List (List UInt8)) :
    Run A τ → List UInt8 → List Operation → Prop
  | _, _, [] => True
  | r, fed, operation :: rest => StepClear bodies r fed operation ∧
      RunClear act bodies (perform act r operation) (fed ++ operation.byte.toList) rest

def decideRunClear (act : A → Addr → Surroundings τ → Surroundings τ) (bodies : List (List UInt8)) :
    (r : Run A τ) → (fed : List UInt8) → (operations : List Operation) → Decidable (RunClear act bodies r fed operations)
  | _, _, [] => inferInstanceAs (Decidable True)
  | r, fed, operation :: rest =>
    have := decideRunClear act bodies (perform act r operation) (fed ++ operation.byte.toList) rest
    inferInstanceAs (Decidable (StepClear bodies r fed operation ∧ _))
instance (act : A → Addr → Surroundings τ → Surroundings τ) (bodies r fed operations) :
    Decidable (RunClear act bodies r fed operations) := decideRunClear act bodies r fed operations

/- Every deferred action of a run leaves its surroundings in `R` to those before. -/
def RunWithin (R : Surroundings τ → Surroundings τ → Prop) (act : A → Addr → Surroundings τ → Surroundings τ) :
    Run A τ → List Operation → Prop
  | _, [] => True
  | r, .rx c :: rest => RunWithin R act (perform act r (.rx c)) rest
  | r, .processPending :: rest =>
    LoopWithin R act r.machine r.machine.queue.pendingPackets ∧ RunWithin R act (perform act r .processPending) rest

theorem RunWithin.imp {R S : Surroundings τ → Surroundings τ → Prop} {act : A → Addr → Surroundings τ → Surroundings τ}
    {r : Run A τ} {operations : List Operation} (within : RunWithin R act r operations)
    (stronger : ∀ o later, R o later → S o later) : RunWithin S act r operations := by
  induction operations generalizing r with
  | nil => trivial
  | cons operation rest ih =>
    cases operation with
    | rx c => exact ih within
    | processPending => exact ⟨within.1.imp stronger, ih within.2⟩

theorem runWithin {R : Surroundings τ → Surroundings τ → Prop} {act : A → Addr → Surroundings τ → Surroundings τ}
    (always : ∀ a p o, R o (act a p o)) (r : Run A τ) (operations : List Operation) : RunWithin R act r operations := by
  induction operations generalizing r with
  | nil => trivial
  | cons operation rest ih =>
    cases operation with
    | rx c => exact ih _
    | processPending => exact ⟨loopWithin always _ _, ih _⟩

def WellFormed (body : List UInt8) : Prop := ∃ t s rest, body = t :: s :: rest ∧ rest.length + 2 = s.toNat

theorem Sendable.wellFormed {installs : List (Install A)} {body : List UInt8} (sendable : Sendable installs body) :
    WellFormed body := by
  obtain ⟨i, -, rest, shape, size⟩ := sendable.shape
  exact ⟨i.type, i.size, rest, shape, size⟩

theorem heldWellFormed {L : Layout A} (sound : L.Sound) {memory : Memory} {e : Entry} (held : Held L memory e) :
    WellFormed e.bytes := by
  have big := (sound.sized e.type held.placed.known).1
  obtain ⟨k, size⟩ : ∃ k, L.size e.type = k + 2 := ⟨L.size e.type - 2, by omega⟩
  refine ⟨memory e.packet, memory (e.packet + 1), load memory (e.packet + 1 + 1) k, ?_, ?_⟩
  · rw [← held.stored, size, loadCons, loadCons]
  · rw [loadLength, held.sized, ← size]
    rfl

theorem frameInjective {x y : List UInt8} (same : frame x = frame y) : x = y := by
  have tails : x ++ [xorSum x] = y ++ [xorSum y] := (List.cons.inj (List.cons.inj same).2).2
  exact (List.append_inj tails (by have := congrArg List.length tails; simpa using this)).1

/- The size byte decides where a frame ends. -/
theorem framePrefix {x y : List UInt8} (missing : List UInt8) (wellX : WellFormed x) (wellY : WellFormed y)
    (split : frame x ++ missing = frame y) : missing = [] ∧ x = y := by
  have none : missing = [] := by
    obtain ⟨t, s, rest, rfl, size⟩ := wellX
    obtain ⟨u, z, more, rfl, sizeY⟩ := wellY
    have lengths := congrArg List.length split
    simp only [frame, List.cons_append, List.cons.injEq, true_and] at split
    obtain ⟨-, rfl, -⟩ := split
    simp only [List.length_append, frameLength, List.length_cons] at lengths
    exact List.eq_nil_of_length_eq_zero (by omega)
  subst none
  exact ⟨rfl, frameInjective (by simpa using split)⟩

/- How the bytes fed and the receiver stand to the packets sent: `done` are the
packets fed whole, `part` is what has been fed of the next one. A receiver past
a preamble is reading just that part. -/
structure Aligned (bodies : List (List UInt8)) (fed seen : List UInt8) (arrived done : List (List UInt8))
    (part : List UInt8) : Prop where
  fed : fed = done.flatMap frame ++ part
  sent : (bodies = done ∧ part = []) ∨
    ∃ body rest missing, bodies = done ++ body :: rest ∧ part ++ missing = frame body ∧ missing ≠ []
  near : seen.length ≤ 1 ∨ seen = part
  arrived : arrived.Sublist done

/- Only one place in the stream follows whole frames and one more byte. -/
theorem atPreamblePart {bodies done : List (List UInt8)} {body part missing : List UInt8} {rest : List (List UInt8)}
    (sent : bodies = done ++ body :: rest) (split : part ++ missing = frame body) (unfinished : missing ≠ [])
    (here : AtPreamble bodies (done.flatMap frame ++ part)) : part = [0xAA] := by
  obtain ⟨k, -, same⟩ := here
  have shorter : part.length < (frame body).length := by
    rw [← split, List.length_append]
    have := List.length_pos_iff.mpr unfinished
    omega
  rcases Nat.lt_trichotomy k done.length with less | equal | more
  · obtain ⟨front, back, rfl, length⟩ : ∃ front back, done = front ++ back ∧ front.length = k :=
      ⟨done.take k, done.drop k, (List.take_append_drop k done).symm, by simp only [List.length_take]; omega⟩
    subst length
    rw [sent, List.append_assoc, List.take_left, List.flatMap_append, List.append_assoc] at same
    have rest := congrArg List.length (List.append_cancel_left same)
    cases back with
    | nil => simp at less
    | cons d more =>
      simp only [List.flatMap_cons, List.length_append, frameLength, List.length_singleton] at rest
      omega
  · rw [sent, equal, List.take_left] at same
    exact List.append_cancel_left same
  · obtain ⟨j, rfl⟩ : ∃ j, k = done.length + (j + 1) := ⟨k - done.length - 1, by omega⟩
    have lengths := congrArg List.length same
    simp [sent, List.take_length_add_append, List.flatMap_append] at lengths
    omega

section Steps
variable {L : Layout A} {act : A → Addr → Surroundings τ → Surroundings τ} {bodies done : List (List UInt8)}
  {fed seen next part : List UInt8} {r : Run A τ} {handled entries later : List Entry} {segments : List Segment}
  {gap : List UInt8}

/- The last byte of a frame. -/
theorem feedLast {body : List UInt8} {rest arrived : List (List UInt8)} {c : UInt8}
    (fedSplit : fed = done.flatMap frame ++ part) (sent : bodies = done ++ body :: rest)
    (split : part ++ [c] = frame body) (arrives : arrived.Sublist (done ++ [body])) (near : next.length ≤ 1) :
    ∃ done part, Aligned bodies (fed ++ [c]) next arrived done part := by
  refine ⟨done ++ [body], [], by simp [fedSplit, ← split], ?_, Or.inl near, arrives⟩
  cases rest with
  | nil => exact Or.inl ⟨sent, rfl⟩
  | cons b more => exact Or.inr ⟨b, more, frame b, by simp [sent], rfl, by simp [frame]⟩

/- A byte that completes nothing the receiver has. -/
theorem feedPart {body missing : List UInt8} {rest arrived : List (List UInt8)} {c : UInt8}
    (fedSplit : fed = done.flatMap frame ++ part) (sent : bodies = done ++ body :: rest)
    (split : part ++ c :: missing = frame body) (arrives : arrived.Sublist done)
    (near : next.length ≤ 1 ∨ (next = part ++ [c] ∧ missing ≠ [])) :
    ∃ done part, Aligned bodies (fed ++ [c]) next arrived done part := by
  by_cases whole : missing = []
  · subst missing
    exact feedLast fedSplit sent split (arrives.trans (List.sublist_append_left _ _)) (near.resolve_right (by simp))
  · exact ⟨done, part ++ [c], by simp [fedSplit],
      Or.inr ⟨body, rest, missing, sent, by simpa using split, whole⟩, near.imp id And.left, arrives⟩

/- What the receiver holds of a frame is never all of it. -/
theorem readingUnfinished {P σ : Type} {ops : World σ → P → PacketOperations σ} {w : World σ} {h : PacketHandler P}
    {body : List UInt8} (well : WellFormed body) (reading : Reading ops w h (frame body)) : False := by
  obtain ⟨t, s, rest, rfl, size⟩ := well
  cases reading with
  | payload _ _ _ _ left more => simp only [List.append_eq, List.length_append, List.length_singleton] at left; omega
  | complete _ _ _ _ full => simp only [List.append_eq, List.length_append, List.length_singleton] at full; omega

/- A growing frame in progress is the one being fed. -/
theorem grownPart {body missing : List UInt8} {rest : List (List UInt8)} {c : UInt8}
    (clear : StepClear bodies r fed (.rx c)) (before : Reading DeferredPacketHandler.operation r.machine.world
      r.machine.outside.baseHandler seen)
    {w : World (DeferredQueue A)} {h : PacketHandler PacketType}
    (after : Reading DeferredPacketHandler.operation w h (seen ++ [c]))
    (fedSplit : fed = done.flatMap frame ++ part) (sent : bodies = done ++ body :: rest)
    (split : part ++ c :: missing = frame body) (near : seen.length ≤ 1 ∨ seen = part) :
    (seen ++ [c]).length ≤ 1 ∨ seen = part := by
  rcases near with short | same
  · match seen, short, before, after with
    | [], _, _, _ => exact Or.inl (by simp)
    | [_], _, .preamble fn, .synced _ _ =>
      rw [fedSplit] at clear
      exact Or.inr (atPreamblePart sent split (by simp) (clear fn rfl)).symm
  · exact Or.inr same

theorem rxAligned (sound : L.Sound) (clear : StepClear bodies r fed (.rx c)) (well : ∀ body ∈ bodies, WellFormed body)
    (onLine : fed ++ [c] <+: bodies.flatMap frame)
    (before : Explained L fed r handled entries segments gap seen)
    (aligned : Aligned bodies fed seen ((handled ++ entries).map Entry.bytes) done part)
    (steady : Steady L (rxByte r.machine c).2 later next) (moves : Moves entries seen c later next) :
    ∃ done part, Aligned bodies (fed ++ [c]) next ((handled ++ later).map Entry.bytes) done part := by
  obtain ⟨fedSplit, sent, near, arrived⟩ := aligned
  obtain ⟨z, line⟩ := onLine
  rcases sent with ⟨rfl, rfl⟩ | ⟨body, rest, missing, sent, split, unfinished⟩
  · have lengths := congrArg List.length line
    simp [fedSplit] at lengths
  · obtain ⟨missing, rfl⟩ : ∃ more, missing = c :: more := by
      simp only [sent, fedSplit, List.flatMap_append, List.flatMap_cons, ← split, List.append_assoc,
        List.append_cancel_left_eq] at line
      cases missing with
      | nil => contradiction
      | cons d more => exact ⟨more, by rw [(List.cons.inj line).1]⟩
    have wellBody : WellFormed body := well body (by simp [sent])
    cases moves with
    | starts => exact feedPart fedSplit sent split arrived (Or.inl (by simp))
    | grows =>
      refine feedPart fedSplit sent split arrived ?_
      have after := steady.receiving.reading
      refine (grownPart clear before.steady.receiving.reading after fedSplit sent split near).imp id ?_
      rintro rfl
      refine ⟨rfl, ?_⟩
      rintro rfl
      rw [split] at after
      exact readingUnfinished wellBody after
    | @queues e whole =>
      have long : ¬ seen.length ≤ 1 := by
        have lengths := congrArg List.length whole
        simp only [List.length_append, List.length_singleton, frameLength] at lengths
        omega
      obtain rfl := near.resolve_left long
      have held := steady.consistent.held e (by simp)
      obtain ⟨rfl, rfl⟩ := framePrefix missing (heldWellFormed sound held) wellBody
        (by rw [← whole, ← split]; simp)
      refine feedLast fedSplit sent split ?_ (by simp)
      rw [← List.append_assoc, List.map_append]
      exact arrived.append_right _

theorem dueBytes (L : Layout A) (entries : List Entry) :
    ((entries.filterMap L.due).map fun due => due.2.2).Sublist (entries.map Entry.bytes) := by
  induction entries with
  | nil => exact .slnil
  | cons e rest ih =>
    cases action : (L.infos e.type).deferredActionFn with
    | none => simpa [Layout.due, action] using ih.cons e.bytes
    | some a => simpa [Layout.due, action] using ih

theorem explainedSublist (x : Explained L fed r handled entries segments gap seen)
    (aligned : Aligned bodies fed seen ((handled ++ entries).map Entry.bytes) done part) :
    (executedPackets r).Sublist bodies := by
  have same : executedPackets r = (handled.filterMap L.due).map fun due => due.2.2 := by
    rw [← x.executed, List.map_map]
    rfl
  have whole : done.Sublist bodies := by
    rcases aligned.sent with ⟨rfl, -⟩ | ⟨body, rest, missing, sent, -, -⟩
    · exact .refl _
    · rw [sent]; exact List.sublist_append_left _ _
  rw [same]
  calc ((handled.filterMap L.due).map fun due => due.2.2).Sublist (handled.map Entry.bytes) := dueBytes L handled
    _ |>.Sublist ((handled ++ entries).map Entry.bytes) := by rw [List.map_append]; exact List.sublist_append_left _ _
    _ |>.Sublist done := aligned.arrived
    _ |>.Sublist bodies := whole

theorem runAligned (sound : L.Sound) (well : ∀ body ∈ bodies, WellFormed body) (operations : List Operation)
    (clear : RunClear act bodies r fed operations) (within : RunWithin (Spares L) act r operations)
    (onLine : fed ++ operations.filterMap Operation.byte <+: bodies.flatMap frame)
    (x : Explained L fed r handled entries segments gap seen)
    (aligned : Aligned bodies fed seen ((handled ++ entries).map Entry.bytes) done part) :
    (executedPackets (performAll act r operations)).Sublist bodies := by
  induction operations generalizing r fed handled entries segments gap seen done part with
  | nil => exact explainedSublist x aligned
  | cons operation rest ih =>
    obtain ⟨clearFirst, clearRest⟩ := clear
    cases operation with
    | rx c =>
      obtain ⟨later, more, gap', next, y, moves⟩ := rxExplained act sound x c
      have line : (fed ++ [c]) ++ rest.filterMap Operation.byte <+: bodies.flatMap frame := by
        simpa [Operation.byte] using onLine
      obtain ⟨done', part', alignedNext⟩ := rxAligned sound clearFirst well
        ((List.prefix_append _ _).trans line) x aligned y.steady moves
      exact ih clearRest within line y alignedNext
    | processPending =>
      have y := processExplained sound x within.1
      have same : fed ++ Operation.processPending.byte.toList = fed := List.append_nil fed
      rw [same] at clearRest
      exact ih clearRest within.2 onLine y (by simpa using aligned)

end Steps

theorem clearRunsSublist {outside : Surroundings τ} {installs : List (Install A)} (ok : Installable installs)
    {act : A → Addr → Surroundings τ → Surroundings τ} {bodies : List (List UInt8)} (well : ∀ body ∈ bodies, WellFormed body) (operations : List Operation)
    (onLine : operations.filterMap Operation.byte <+: bodies.flatMap frame)
    (clear : RunClear act bodies (begin (setUp outside installs)) [] operations)
    (within : RunWithin (Unharmed installs) act (begin (setUp outside installs)) operations) :
    (executedPackets (performAll act (begin (setUp outside installs)) operations)).Sublist bodies := by
  have aligned : Aligned bodies [] [] [] [] [] := by
    refine ⟨rfl, ?_, Or.inl (by simp), .slnil⟩
    cases bodies with
    | nil => exact Or.inl ⟨rfl, rfl⟩
    | cons body rest => exact Or.inr ⟨body, rest, frame body, rfl, rfl, by simp [frame]⟩
  have spared : RunWithin (Spares (layout outside installs)) act (begin (setUp outside installs)) operations :=
    within.imp fun _ _ unharmed => unharmed.spares
  exact runAligned (layoutSound ok) well operations clear spared onLine (beginExplained ok) aligned

theorem clearRunsExecuteSent (sonar : Bool) (buffers : OrazioComm.PacketBuffers) (apart : buffers.Apart sonar)
    (outside : Surroundings τ) (act : OrazioComm.DeferredAction → Addr → Surroundings τ → Surroundings τ)
    (bodies : List (List UInt8)) (sendable : ∀ body ∈ bodies, Sendable (OrazioComm.packets sonar buffers) body) (operations : List Operation)
    (onLine : operations.filterMap Operation.byte <+: bodies.flatMap frame)
    (clear : RunClear act bodies (begin (OrazioComm.commInit sonar buffers outside)) [] operations)
    (within : RunWithin (Unharmed (OrazioComm.packets sonar buffers)) act
      (begin (OrazioComm.commInit sonar buffers outside)) operations) :
    (executedPackets (performAll act (begin (OrazioComm.commInit sonar buffers outside)) operations)).Sublist bodies := by
  rw [OrazioComm.commInitSetUp] at clear within ⊢
  exact clearRunsSublist (OrazioComm.packetsInstallable apart)
    (fun body member => (sendable body member).wellFormed) operations onLine clear within

def spacedBuffers : OrazioComm.PacketBuffers := ⟨100,200,300,400,500,600,700⟩

def jointParam (payload : List UInt8) : List UInt8 := 6 :: 25 :: payload

theorem jointParamSent (payload : List UInt8) (length : payload.length = 23) :
    Sendable (OrazioComm.packets false spacedBuffers) (jointParam payload) :=
  ⟨(OrazioComm.packets false spacedBuffers).get ⟨3, by decide⟩, List.get_mem _ _, payload, rfl, by rw [length]; rfl⟩

def sendAll (bodies : List (List UInt8)) : List Operation :=
  (bodies.flatMap frame).map Operation.rx ++ [.processPending]

def firmware : Run OrazioComm.DeferredAction Unit :=
  begin (OrazioComm.commInit false spacedBuffers idleSurroundings)

theorem twoJointParamsExecuteSent :
    (executedPackets (performAll (fun _ _ o => o) firmware
      (sendAll (List.replicate 2 (jointParam (List.replicate 23 0)))))).Sublist
      (List.replicate 2 (jointParam (List.replicate 23 0))) :=
  clearRunsExecuteSent false spacedBuffers (by decide) idleSurroundings (fun _ _ o => o) _
    (by intro body member; rw [List.eq_of_mem_replicate member]; exact jointParamSent _ rfl)
    (sendAll (List.replicate 2 (jointParam (List.replicate 23 0)))) (by decide +kernel) (by decide +kernel)
    (runWithin (fun _ _ o => ⟨.refl o.baseHandler, fun _ _ _ _ => rfl⟩) _ _)

/- A command for joint 0 travelling in the payload of a third parameter packet,
for which no buffer is free. -/
def disguised : List UInt8 := [5,8,0,0,0,10,0,1]

def carrying : List (List UInt8) :=
  [jointParam (List.replicate 23 0), jointParam (List.replicate 23 0),
    jointParam ([0,0,0] ++ frame disguised ++ List.replicate 9 0)]

theorem refusedFrameCommands :
    spacedBuffers.Apart false ∧
    Harmless (OrazioComm.packets false spacedBuffers) (fun _ _ (o : Surroundings Unit) => o) ∧
    (∀ body ∈ carrying, Sendable (OrazioComm.packets false spacedBuffers) body) ∧
    (sendAll carrying).filterMap Operation.byte = carrying.flatMap frame ∧
    disguised ∈ executedPackets (performAll (fun _ _ o => o) firmware (sendAll carrying)) ∧
    ¬ (executedPackets (performAll (fun _ _ o => o) firmware (sendAll carrying))).Sublist carrying := by
  have executed : executedPackets (performAll (fun _ _ o => o) firmware (sendAll carrying)) =
      [jointParam (List.replicate 23 0), jointParam (List.replicate 23 0), disguised] := by decide +kernel
  refine ⟨by decide, fun _ _ o => ⟨.refl o.baseHandler, fun _ _ _ _ => rfl⟩, ?_, by decide +kernel, ?_, ?_⟩
  · intro body member
    simp only [carrying, List.mem_cons, List.not_mem_nil, or_false] at member
    rcases member with rfl | rfl | rfl <;> exact jointParamSent _ rfl
  · rw [executed]
    decide
  · rw [executed]
    decide

end OrazioLogger.RefusedFrames
