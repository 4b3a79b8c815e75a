import OrazioLogger.Support.PointerChain
import Mathlib.Data.List.ReduceOption

/-! queue.h: a linked queue in the heap, and the list it stands for. -/
namespace OrazioLogger.Queue
open PointerChain

/- `struct node` and `struct queue`; none is the null pointer. -/
inductive Object (A D : Type) where
  | node (data : Option D) (next : Option A)
  | queue (head tail : Option A)
  deriving DecidableEq, Repr

abbrev Memory (A D : Type) := A → Option (Object A D)

variable {A D : Type}

section Source
variable [DecidableEq A]

/- `temp` is what malloc returns. -/
def newNode (temp : A) (data : Option D) (m : Memory A D) : Memory A D :=
  Function.update m temp (some (.node data none))

/- `q` is what malloc returns. -/
def createQueue (q : A) (m : Memory A D) : Memory A D := Function.update m q (some (.queue none none))

/- `tail->next = temp`; there is no node where a pointer is not to one. -/
def setNext (tail temp : A) (m : Memory A D) : Option (Memory A D) :=
  match m tail with
  | some (.node data _) => some (Function.update m tail (some (.node data (some temp))))
  | _ => none

def enqueue (temp q : A) (data : Option D) (m : Memory A D) : Option (Memory A D) :=
  let m := newNode temp data m
  match m q with
  | some (.queue _ none) => some (Function.update m q (some (.queue (some temp) (some temp))))
  | some (.queue head (some tail)) =>
    (setNext tail temp m).map fun m => Function.update m q (some (.queue head (some temp)))
  | _ => none

def dequeue (q : A) (m : Memory A D) : Option (Option D × Memory A D) :=
  match m q with
  | some (.queue none _) => some (none, m)
  | some (.queue (some temp) tail) =>
    match m temp with
    | some (.node data next) =>
      some (data, Function.update m q (some (.queue next (if next = none then none else tail))))
    | _ => none
  | _ => none

def isempty (q : A) (m : Memory A D) : Option Nat :=
  match m q with
  | some (.queue head tail) => some (if head = none ∧ tail = none then 1 else 0)
  | _ => none

/- The calls, an enqueue with the address malloc returns in it, and the pointers the dequeues return. -/
inductive Call (A D : Type) where
  | enqueue (data : Option D) (temp : A)
  | dequeue

def perform (q : A) : List (Call A D) → Memory A D → Option (List (Option D) × Memory A D)
  | [], m => some ([], m)
  | .enqueue data temp :: rest, m => (enqueue temp q data m).bind (perform q rest)
  | .dequeue :: rest, m =>
    (dequeue q m).bind fun first => (perform q rest first.2).map fun later => (first.1 :: later.1, later.2)

/- Each malloc returns an address at which nothing is allocated. -/
def Fresh (q : A) : List (Call A D) → Memory A D → Prop
  | [], _ => True
  | .enqueue data temp :: rest, m => m temp = none ∧ ∀ later, enqueue temp q data m = some later → Fresh q rest later
  | .dequeue :: rest, m => ∀ data later, dequeue q m = some (data, later) → Fresh q rest later

end Source

/-! The list of the data pointers in the queue. A dequeue takes the first one, if there is one. -/

def enqueued : List (Call A D) → List (Option D)
  | [] => []
  | .enqueue data _ :: rest => data :: enqueued rest
  | .dequeue :: rest => enqueued rest

def fifo : List (Call A D) → List (Option D) → List (Option (Option D)) × List (Option D)
  | [], stored => ([], stored)
  | .enqueue data _ :: rest, stored => fifo rest (stored ++ [data])
  | .dequeue :: rest, stored => (stored.head? :: (fifo rest stored.tail).1, (fifo rest stored.tail).2)

theorem fifoInOrder (calls : List (Call A D)) (stored : List (Option D)) :
    stored ++ enqueued calls = (fifo calls stored).1.reduceOption ++ (fifo calls stored).2 := by
  induction calls generalizing stored with
  | nil => simp [enqueued, fifo]
  | cons call rest ih =>
    cases call with
    | enqueue data temp => simpa [enqueued, fifo] using ih (stored ++ [data])
    | dequeue =>
      cases stored with
      | nil => simpa [enqueued, fifo] using ih []
      | cons first others => simpa [enqueued, fifo, List.reduceOption_cons_of_some] using ih others

/-! The nodes in the memory, and the queue at `q` when it holds a list. -/

def nodes (m : Memory A D) : View A (Option D) := fun a =>
  match m a with
  | some (.node data next) => some (data, next)
  | _ => none

structure Holds (m : Memory A D) (q : A) (head tail : Option A) (cells : List (A × Option D)) : Prop where
  queue : m q = some (.queue head tail)
  chain : Chain (nodes m) head cells
  last : tail = (addresses cells).getLast?

theorem nodesAt {m : Memory A D} {a : A} {data : Option D} {next : Option A} :
    nodes m a = some (data, next) ↔ m a = some (.node data next) := by
  unfold nodes
  split
  · rename_i stored
    simp [stored]
  · rename_i other
    exact ⟨nofun, fun stored => absurd stored (other data next)⟩

section Kept
variable {m : Memory A D} {q : A} {head tail : Option A} {cells : List (A × Option D)}

theorem Holds.nodeAllocated (holds : Holds m q head tail cells) {a : A} (among : a ∈ addresses cells) :
    ∃ data next, m a = some (.node data next) := by
  obtain ⟨onward, own, -⟩ := holds.chain.onward among
  cases own with
  | cell here more => exact ⟨_, _, nodesAt.mp here⟩

theorem Holds.apart (holds : Holds m q head tail cells) : q ∉ addresses cells := fun among => by
  obtain ⟨data, next, stored⟩ := holds.nodeAllocated among
  rw [holds.queue] at stored
  cases stored

/- Where the tail points. -/
theorem Holds.tailNode (holds : Holds m q head tail cells) (a : A) :
    tail = some a ↔ Reaches (nodes m) head a ∧ ∃ data, m a = some (.node data none) := by
  rw [holds.last, holds.chain.reaches]
  refine (holds.chain.final a).trans (and_congr_right fun _ => exists_congr fun data => ?_)
  exact nodesAt

theorem Holds.headNull (holds : Holds m q head tail cells) : head = none ↔ cells = [] := holds.chain.ends

theorem Holds.tailNull (holds : Holds m q head tail cells) : tail = none ↔ cells = [] := by
  rw [holds.last, List.getLast?_eq_none_iff]
  exact List.map_eq_nil_iff

theorem Holds.isempty (holds : Holds m q head tail cells) : isempty q m = some (if cells = [] then 1 else 0) := by
  unfold Queue.isempty
  rw [holds.queue]
  simp only [holds.headNull, holds.tailNull, and_self]

variable [DecidableEq A]

theorem nodesUpdated {a : A} {object : Option (Object A D)} {b : A} (apart : b ≠ a) :
    nodes (Function.update m a object) b = nodes m b := by
  unfold nodes
  rw [Function.update_of_ne apart]

theorem nodesWritten {a : A} {data : Option D} {next : Option A} :
    nodes (Function.update m a (some (.node data next))) a = some (data, next) :=
  nodesAt.mpr (Function.update_self ..)

theorem createQueueHolds (m : Memory A D) (q : A) : Holds (createQueue q m) q none none [] :=
  ⟨Function.update_self .., .null, rfl⟩

theorem enqueueHolds (holds : Holds m q head tail cells) {temp : A} (fresh : m temp = none) (data : Option D) :
    ∃ later head tail, enqueue temp q data m = some later ∧ Holds later q head tail (cells ++ [(temp, data)]) := by
  have others : ∀ a ∈ addresses cells, a ≠ temp := fun a among same => by
    obtain ⟨_, _, stored⟩ := holds.nodeAllocated among
    rw [same, fresh] at stored
    cases stored
  have queueApart : q ≠ temp := fun same => by
    have stored := holds.queue
    rw [same, fresh] at stored
    cases stored
  have kept : newNode temp data m q = some (.queue head tail) := (Function.update_of_ne queueApart ..).trans holds.queue
  have last := holds.last
  unfold enqueue
  dsimp only
  rw [kept]
  cases ending : (addresses cells).getLast? with
  | none =>
    rw [ending] at last
    have nothing : cells = [] := List.map_eq_nil_iff.mp (List.getLast?_eq_none_iff.mp ending)
    rw [last, nothing]
    refine ⟨_, some temp, some temp, rfl, Function.update_self .., .cell ?_ .null, rfl⟩
    exact (nodesUpdated queueApart.symm).trans nodesWritten
  | some final =>
    rw [ending] at last
    have among := List.mem_of_getLast? ending
    obtain ⟨d, stored⟩ := ((holds.chain.final final).mp ending).2
    have unlinked : newNode temp data m final = some (.node d none) :=
      (Function.update_of_ne (others final among) ..).trans (nodesAt.mp stored)
    have finalApart : final ≠ q := fun same => holds.apart (same ▸ among)
    rw [last]
    dsimp only
    unfold setNext
    rw [unlinked]
    refine ⟨_, head, some temp, rfl, Function.update_self .., ?_, ?_⟩
    · refine holds.chain.append ending (fun e points => ?_) ?_ fun a inside apart => ?_
      · rw [stored] at points
        cases points
        exact (nodesUpdated finalApart).trans nodesWritten
      · exact ((nodesUpdated queueApart.symm).trans (nodesUpdated (others final among).symm)).trans nodesWritten
      · have queueOther : a ≠ q := fun same => holds.apart (same ▸ inside)
        exact ((nodesUpdated queueOther).trans (nodesUpdated apart)).trans (nodesUpdated (others a inside))
    · simp [addresses]

theorem dequeueHolds (holds : Holds m q head tail cells) :
    ∃ later head tail, dequeue q m = some ((cells.map Prod.snd).head?.join, later) ∧ Holds later q head tail cells.tail := by
  have queueApart := holds.apart
  obtain ⟨queue, chain, last⟩ := holds
  unfold dequeue
  rw [queue]
  cases chain with
  | null => exact ⟨m, none, tail, rfl, queue, .null, last⟩
  | @cell a d next rest here more =>
    dsimp only
    rw [nodesAt.mp here]
    obtain ⟨-, others⟩ := not_or.mp (mt List.mem_cons.mpr queueApart)
    refine ⟨_, next, _, rfl, Function.update_self .., ?_, ?_⟩
    · exact more.frame fun b inside => nodesUpdated fun same => others (same ▸ inside)
    · cases more with
      | null => rfl
      | cell there after => simpa [addresses] using last

theorem performHolds (calls : List (Call A D)) (holds : Holds m q head tail cells) (fresh : Fresh q calls m) :
    ∃ later head tail cells', perform q calls m = some ((fifo calls (cells.map Prod.snd)).1.map Option.join, later) ∧
      Holds later q head tail cells' ∧ cells'.map Prod.snd = (fifo calls (cells.map Prod.snd)).2 := by
  induction calls generalizing m head tail cells with
  | nil => exact ⟨m, head, tail, cells, rfl, holds, rfl⟩
  | cons call rest ih =>
    cases call with
    | enqueue data temp =>
      obtain ⟨free, next⟩ := fresh
      obtain ⟨mid, head, tail, stored, holds⟩ := enqueueHolds holds free data
      obtain ⟨later, head, tail, cells', run, holds, remaining⟩ := ih holds (next mid stored)
      rw [List.map_append] at run remaining
      refine ⟨later, head, tail, cells', ?_, holds, remaining⟩
      rw [perform, stored]
      exact run
    | dequeue =>
      obtain ⟨mid, head, tail, taken, holds⟩ := dequeueHolds holds
      obtain ⟨later, head, tail, cells', run, holds, remaining⟩ := ih holds (fresh _ mid taken)
      rw [List.map_tail] at run remaining
      refine ⟨later, head, tail, cells', ?_, holds, remaining⟩
      rw [perform, taken, Option.bind_some, run]
      rfl

end Kept

/- What the calls after `createQueue` leave in the heap is the list, and they return what is taken from it. -/
theorem linkedQueue [DecidableEq A] (m : Memory A D) (q : A) (calls : List (Call A D))
    (fresh : Fresh q calls (createQueue q m)) :
    ∃ returned later head tail cells, perform q calls (createQueue q m) = some (returned, later) ∧
      Holds later q head tail cells ∧ cells.map Prod.snd = (fifo calls []).2 ∧
      (head = none ↔ (fifo calls []).2 = []) ∧ (tail = none ↔ (fifo calls []).2 = []) ∧
      (∀ a, tail = some a ↔ Reaches (nodes later) head a ∧ ∃ data, later a = some (.node data none)) ∧
      (isempty q later = some 1 ↔ (fifo calls []).2 = []) ∧
      returned = (fifo calls []).1.map Option.join ∧ enqueued calls = (fifo calls []).1.reduceOption ++ (fifo calls []).2 ∧
      ∃ data after, dequeue q later = some (data, after) ∧
        (data = none ↔ (fifo calls []).2 = [] ∨ (fifo calls []).2.head? = some none) := by
  obtain ⟨later, head, tail, cells, run, holds, stored⟩ := performHolds calls (createQueueHolds m q) fresh
  rw [List.map_nil] at run stored
  have nothing : cells = [] ↔ (fifo calls []).2 = [] := by rw [← stored, List.map_eq_nil_iff]
  have empty := holds.isempty
  obtain ⟨after, _, _, next, -⟩ := dequeueHolds holds
  refine ⟨_, later, head, tail, cells, run, holds, stored, ?_, ?_, holds.tailNode, ?_, rfl, fifoInOrder calls [], _, after,
    next, ?_⟩
  · exact holds.headNull.trans nothing
  · exact holds.tailNull.trans nothing
  · rw [empty, ← nothing]
    split <;> simp_all
  · rw [← stored]
    cases cells with
    | nil => exact ⟨fun _ => .inl rfl, fun _ => rfl⟩
    | cons first rest => simp

/- Two are put in and one is taken. -/
theorem firstOfTwo : (perform 0 [.enqueue (some 7) 1, .enqueue (some 8) 2, .dequeue] (createQueue 0 fun _ => none)).map
    Prod.fst = some [some 7] := by
  have fresh : Fresh 0 [.enqueue (some 7) 1, .enqueue (some 8) 2, .dequeue]
      (createQueue 0 fun _ => none : Memory Nat Nat) := by
    refine ⟨rfl, fun later stored => ?_⟩
    cases stored
    refine ⟨rfl, fun later stored => ?_⟩
    cases stored
    exact fun _ _ _ => trivial
  obtain ⟨returned, later, _, _, _, run, _, _, _, _, _, _, taken, _⟩ := linkedQueue (fun _ => none) 0 _ fresh
  rw [run, taken]
  rfl

/- A null pointer that is enqueued comes out like the answer of an empty queue. -/
theorem nullEnqueued : ¬ ∀ (m : Memory Nat Nat) (q : Nat) (calls : List (Call Nat Nat)),
    Fresh q calls (createQueue q m) → ∀ returned later, perform q calls (createQueue q m) = some (returned, later) →
      ∀ data after, dequeue q later = some (data, after) → (data = none ↔ (fifo calls []).2 = []) := by
  intro always
  have fresh : Fresh 0 [.enqueue none 1] (createQueue 0 fun _ => none : Memory Nat Nat) := ⟨rfl, fun _ _ => trivial⟩
  have stored := (always (fun _ => none) 0 [.enqueue none 1] fresh _ _ rfl _ _ rfl).mp rfl
  cases stored

end OrazioLogger.Queue
