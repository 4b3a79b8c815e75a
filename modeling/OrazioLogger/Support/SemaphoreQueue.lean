import Mathlib.Data.List.Basic
import Mathlib.Logic.Function.Basic
import Mathlib.Tactic.Common

/-! Producers and one consumer around a queue, a lock and a counting semaphore.
A producer enqueues and posts inside the lock; the consumer waits for an item,
then takes the lock. `entered` lists the records in the order their producers
took the lock, `delivered` those the consumer is done with. -/
namespace OrazioLogger.SemaphoreQueue

variable {ι R : Type}

inductive Producer (R : Type) where
  | outside | waiting (r : R) | inside (r : R) | stored | posted

inductive Consumer (R : Type) where
  | outside | waiting | granted | inside | leaving (r : Option R) | holding (r : Option R)

structure State (ι R : Type) where
  queue : List R
  items : Nat
  lock : Nat
  producer : ι → Producer R
  consumer : Consumer R
  entered : List R
  delivered : List R

def Producer.Locked : Producer R → Prop
  | .inside _ | .stored | .posted => True
  | _ => False

def Consumer.Locked : Consumer R → Prop
  | .inside | .leaving _ => True
  | _ => False

/- The record of a producer that has entered but not enqueued yet. -/
def Producer.unstored : Producer R → List R
  | .inside r => [r]
  | _ => []

/- An item in the queue that the semaphore does not count yet. -/
def Producer.unposted : Producer R → Nat
  | .stored => 1
  | _ => 0

/- An item in the queue that the consumer has been granted. -/
def Consumer.claim : Consumer R → Nat
  | .granted | .inside => 1
  | _ => 0

def Consumer.hand : Consumer R → List R
  | .leaving r | .holding r => r.toList
  | _ => []

inductive Step [DecidableEq ι] : State ι R → State ι R → Prop where
  | arrive {s : State ι R} {i : ι} (r : R) (pc : s.producer i = .outside) :
      Step s { s with producer := Function.update s.producer i (.waiting r) }
  | enter {s : State ι R} {i : ι} {r : R} (pc : s.producer i = .waiting r) (free : 0 < s.lock) :
      Step s { s with
        lock := s.lock - 1
        producer := Function.update s.producer i (.inside r)
        entered := s.entered ++ [r] }
  | enqueue {s : State ι R} {i : ι} {r : R} (pc : s.producer i = .inside r) :
      Step s { s with queue := s.queue ++ [r], producer := Function.update s.producer i .stored }
  | post {s : State ι R} {i : ι} (pc : s.producer i = .stored) :
      Step s { s with items := s.items + 1, producer := Function.update s.producer i .posted }
  | leave {s : State ι R} {i : ι} (pc : s.producer i = .posted) :
      Step s { s with lock := s.lock + 1, producer := Function.update s.producer i .outside }
  | ask {s : State ι R} (pc : s.consumer = .outside) : Step s { s with consumer := .waiting }
  | grant {s : State ι R} (pc : s.consumer = .waiting) (some : 0 < s.items) :
      Step s { s with items := s.items - 1, consumer := .granted }
  | take {s : State ι R} (pc : s.consumer = .granted) (free : 0 < s.lock) :
      Step s { s with lock := s.lock - 1, consumer := .inside }
  | dequeue {s : State ι R} (pc : s.consumer = .inside) :
      Step s { s with queue := s.queue.tail, consumer := .leaving s.queue.head? }
  | release {s : State ι R} {r : Option R} (pc : s.consumer = .leaving r) :
      Step s { s with lock := s.lock + 1, consumer := .holding r }
  | deliver {s : State ι R} {r : Option R} (pc : s.consumer = .holding r) :
      Step s { s with consumer := .outside, delivered := s.delivered ++ r.toList }

def idle : State ι R := ⟨[], 0, 1, fun _ => .outside, .outside, [], []⟩

inductive Reachable [DecidableEq ι] : State ι R → Prop where
  | idle : Reachable idle
  | step {s t : State ι R} (reachable : Reachable s) (step : Step s t) : Reachable t

/- The lock is free, or exactly one party is inside; queue and semaphore differ by
what is on its way between them. -/
inductive Guarded (s : State ι R) : Prop where
  | free (lock : s.lock = 1) (producers : ∀ i, ¬ (s.producer i).Locked) (consumer : ¬ s.consumer.Locked)
      (count : s.queue.length = s.items + s.consumer.claim)
      (history : s.entered = s.delivered ++ (s.consumer.hand ++ s.queue))
  | producer (i : ι) (lock : s.lock = 0) (mine : (s.producer i).Locked) (others : ∀ j, j ≠ i → ¬ (s.producer j).Locked)
      (consumer : ¬ s.consumer.Locked)
      (count : s.queue.length = s.items + s.consumer.claim + (s.producer i).unposted)
      (history : s.entered = s.delivered ++ (s.consumer.hand ++ (s.queue ++ (s.producer i).unstored)))
  | consumer (lock : s.lock = 0) (producers : ∀ i, ¬ (s.producer i).Locked) (consumer : s.consumer.Locked)
      (count : s.queue.length = s.items + s.consumer.claim)
      (history : s.entered = s.delivered ++ (s.consumer.hand ++ s.queue))

structure Held (s : State ι R) (i : ι) : Prop where
  lock : s.lock = 0
  others : ∀ j, j ≠ i → ¬ (s.producer j).Locked
  consumer : ¬ s.consumer.Locked
  count : s.queue.length = s.items + s.consumer.claim + (s.producer i).unposted
  history : s.entered = s.delivered ++ (s.consumer.hand ++ (s.queue ++ (s.producer i).unstored))

variable {s t : State ι R}

theorem Guarded.held (g : Guarded s) {i : ι} (mine : (s.producer i).Locked) : Held s i := by
  cases g with
  | free _ producers => exact absurd mine (producers i)
  | producer j lock _ others consumer count history =>
    by_cases same : i = j
    · subst j
      exact ⟨lock, others, consumer, count, history⟩
    · exact absurd mine (others i same)
  | consumer _ producers => exact absurd mine (producers i)

/- A producer that stays outside changes nothing. -/
theorem Guarded.arrive [DecidableEq ι] (g : Guarded s) {i : ι} (r : R) (pc : s.producer i = .outside) :
    Guarded { s with producer := Function.update s.producer i (.waiting r) } := by
  have outside (j : ι) (away : ¬ (s.producer j).Locked) :
      ¬ (Function.update s.producer i (.waiting r) j).Locked := by
    by_cases same : j = i
    · subst j
      simp [Producer.Locked]
    · simpa [same] using away
  cases g with
  | free lock producers consumer count history =>
    exact .free lock (fun j => outside j (producers j)) consumer count history
  | producer j lock mine others consumer count history =>
    have other : j ≠ i := by
      rintro rfl
      simp [pc, Producer.Locked] at mine
    exact .producer j lock (by simpa [other] using mine) (fun k away => outside k (others k away)) consumer
      (by simpa [other] using count) (by simpa [other] using history)
  | consumer lock producers consumer count history =>
    exact .consumer lock (fun j => outside j (producers j)) consumer count history

/- A step of the consumer away from the lock. -/
theorem Guarded.consume (g : Guarded s) {items : Nat} {consumer : Consumer R} {delivered : List R}
    (before : ¬ s.consumer.Locked) (after : ¬ consumer.Locked)
    (count : items + consumer.claim = s.items + s.consumer.claim)
    (history : delivered ++ consumer.hand = s.delivered ++ s.consumer.hand) :
    Guarded { s with items := items, consumer := consumer, delivered := delivered } := by
  cases g with
  | free lock producers _ total whole =>
    exact .free lock producers after (total.trans count.symm)
      (by rw [← List.append_assoc] at whole ⊢; exact whole.trans (by rw [history]))
  | producer j lock mine others _ total whole =>
    exact .producer j lock mine others after (total.trans (by rw [count]))
      (by rw [← List.append_assoc] at whole ⊢; exact whole.trans (by rw [history]))
  | consumer _ _ locked => exact absurd locked before

theorem Guarded.unlocked (g : Guarded s) (free : 0 < s.lock) :
    s.lock = 1 ∧ (∀ i, ¬ (s.producer i).Locked) ∧ ¬ s.consumer.Locked ∧
      s.queue.length = s.items + s.consumer.claim ∧ s.entered = s.delivered ++ (s.consumer.hand ++ s.queue) := by
  cases g with
  | free lock producers consumer count history => exact ⟨lock, producers, consumer, count, history⟩
  | producer _ lock => omega
  | consumer lock => omega

theorem Guarded.consumerHeld (g : Guarded s) (locked : s.consumer.Locked) :
    s.lock = 0 ∧ (∀ i, ¬ (s.producer i).Locked) ∧ s.queue.length = s.items + s.consumer.claim ∧
      s.entered = s.delivered ++ (s.consumer.hand ++ s.queue) := by
  cases g with
  | free _ _ away => exact absurd locked away
  | producer _ _ _ _ away => exact absurd locked away
  | consumer lock producers _ count history => exact ⟨lock, producers, count, history⟩

theorem Guarded.step [DecidableEq ι] (g : Guarded s) (step : Step s t) : Guarded t := by
  have moved {i : ι} {now : Producer R} (others : ∀ j, j ≠ i → ¬ (s.producer j).Locked) :
      ∀ j, j ≠ i → ¬ (Function.update s.producer i now j).Locked := fun j away => by
    simpa [away] using others j away
  cases step with
  | arrive r pc => exact g.arrive r pc
  | @enter i r pc free =>
    obtain ⟨lock, producers, consumer, count, history⟩ := g.unlocked free
    refine .producer i (by simp [lock]) (by simp [Producer.Locked]) (moved fun j _ => producers j) consumer ?_ ?_
    · simpa [Producer.unposted] using count
    · simp [Producer.unstored, history]
  | @enqueue i r pc =>
    obtain ⟨lock, others, consumer, count, history⟩ := g.held (i := i) (by simp [pc, Producer.Locked])
    simp only [pc, Producer.unposted, Producer.unstored] at count history
    refine .producer i lock (by simp [Producer.Locked]) (moved others) consumer ?_ ?_
    · simp [Producer.unposted, count]
    · simp [Producer.unstored, history]
  | @post i pc =>
    obtain ⟨lock, others, consumer, count, history⟩ := g.held (i := i) (by simp [pc, Producer.Locked])
    simp only [pc, Producer.unposted, Producer.unstored] at count history
    refine .producer i lock (by simp [Producer.Locked]) (moved others) consumer ?_ ?_
    · simp [Producer.unposted, count, Nat.add_right_comm]
    · simpa [Producer.unstored] using history
  | @leave i pc =>
    obtain ⟨lock, others, consumer, count, history⟩ := g.held (i := i) (by simp [pc, Producer.Locked])
    simp only [pc, Producer.unposted, Producer.unstored, List.append_nil] at count history
    refine .free (by simp [lock]) (fun j => ?_) consumer count history
    by_cases same : j = i
    · subst j
      simp [Producer.Locked]
    · exact moved others j same
  | ask pc =>
    exact g.consume (by simp [pc, Consumer.Locked]) (by simp [Consumer.Locked])
      (by simp [pc, Consumer.claim]) (by simp [pc, Consumer.hand])
  | grant pc some =>
    exact g.consume (by simp [pc, Consumer.Locked]) (by simp [Consumer.Locked])
      (by simp only [pc, Consumer.claim]; omega) (by simp [pc, Consumer.hand])
  | take pc free =>
    obtain ⟨lock, producers, -, count, history⟩ := g.unlocked free
    exact .consumer (by simp [lock]) producers (by simp [Consumer.Locked]) (by simpa [pc, Consumer.claim] using count)
      (by simpa [pc, Consumer.hand] using history)
  | dequeue pc =>
    obtain ⟨lock, producers, count, history⟩ := g.consumerHeld (by simp [pc, Consumer.Locked])
    simp only [pc, Consumer.claim, Consumer.hand] at count history
    refine .consumer lock producers (by simp [Consumer.Locked]) (by simp [Consumer.claim, count]) ?_
    cases queue : s.queue <;> simp [Consumer.hand, history, queue]
  | release pc =>
    obtain ⟨lock, producers, count, history⟩ := g.consumerHeld (by simp [pc, Consumer.Locked])
    exact .free (by simp [lock]) producers (by simp [Consumer.Locked]) (by simpa [pc, Consumer.claim] using count)
      (by simpa [pc, Consumer.hand] using history)
  | deliver pc =>
    exact g.consume (by simp [pc, Consumer.Locked]) (by simp [Consumer.Locked])
      (by simp [pc, Consumer.claim]) (by simp [pc, Consumer.hand])

theorem reachableGuarded [DecidableEq ι] (reachable : Reachable s) : Guarded s := by
  induction reachable with
  | idle => exact .free rfl (by simp [idle, Producer.Locked]) (by simp [idle, Consumer.Locked]) rfl rfl
  | step _ step ih => exact ih.step step

theorem neverDequeuesEmpty [DecidableEq ι] (reachable : Reachable s) (pc : s.consumer = .inside) : s.queue ≠ [] := by
  obtain ⟨-, -, count, -⟩ := (reachableGuarded reachable).consumerHeld (by simp [pc, Consumer.Locked])
  intro none
  simp [none, pc, Consumer.claim] at count

theorem handFilled [DecidableEq ι] (reachable : Reachable s) {r : Option R}
    (pc : s.consumer = .leaving r ∨ s.consumer = .holding r) : r ≠ none := by
  induction reachable generalizing r with
  | idle => rcases pc with pc | pc <;> cases pc
  | @step s t reachable step ih =>
    cases step with
    | dequeue inside =>
      obtain rfl : s.queue.head? = r := by simpa using pc
      simpa using neverDequeuesEmpty reachable inside
    | release leaving =>
      rename_i held
      obtain rfl : held = r := by simpa using pc
      exact ih (Or.inl leaving)
    | arrive => exact ih pc
    | enter => exact ih pc
    | enqueue => exact ih pc
    | post => exact ih pc
    | leave => exact ih pc
    | ask => simp at pc
    | grant => simp at pc
    | take => simp at pc
    | deliver => simp at pc

/- Records are delivered in the order their producers took the lock. -/
theorem deliveredPrefix [DecidableEq ι] (reachable : Reachable s) : s.delivered <+: s.entered := by
  cases reachableGuarded reachable with
  | free _ _ _ _ history => exact ⟨_, history.symm⟩
  | producer _ _ _ _ _ _ history => exact ⟨_, history.symm⟩
  | consumer _ _ _ _ history => exact ⟨_, history.symm⟩

/- An item nobody has been granted is counted, or about to be. -/
theorem Guarded.counted (g : Guarded s) (unclaimed : s.consumer.claim = 0) (some : s.queue ≠ []) :
    0 < s.items ∨ ∃ i, 0 < (s.producer i).unposted := by
  have positive := List.length_pos_iff.mpr some
  cases g with
  | free _ _ _ count => exact Or.inl (by omega)
  | producer i _ _ _ _ count =>
    by_cases now : 0 < s.items
    · exact Or.inl now
    · exact Or.inr ⟨i, by omega⟩
  | consumer _ _ _ count => exact Or.inl (by omega)

/- With nobody on the way, what is not delivered is in the queue. -/
theorem Guarded.settled (g : Guarded s) (empty : s.consumer.hand = []) (stored : ∀ i, (s.producer i).unstored = []) :
    s.entered = s.delivered ++ s.queue := by
  cases g with
  | free _ _ _ _ history => simpa [empty] using history
  | producer i _ _ _ _ _ history => simpa [empty, stored i] using history
  | consumer _ _ _ _ history => simpa [empty] using history

end OrazioLogger.SemaphoreQueue
