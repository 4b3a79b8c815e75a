import OrazioLogger.DataEERuns

/-! The power fails between two operations on program memory, in the middle of a write or of a start: which values are
kept, and when the emulation takes no more of them. -/
namespace OrazioLogger.DataEE
open Journal

/- A reset leaves program memory. -/
def powered (s : State) : State := { restart s.memory with history := s.history }

/- The call leads from `s` to `t`, and the power fails after `k` of its operations. -/
def outage (s t : State) (k : Nat) : State :=
  match t.history.length - s.history.length - k with
  | 0 => powered t
  | lost + 1 => { restart (t.history[lost]?.elim t.memory Done.before) with history := t.history.drop (lost + 1) }

structure Device where
  state : State
  running : Bool

/- `cut` is the number of operations after which the power fails. -/
inductive Event where
  | start (cut : Option Nat)
  | fail
  | read (addr : UInt16)
  | write (data addr : UInt16) (cut : Option Nat)
  deriving DecidableEq, Repr

def finish (s : State) (result : Nat × State) : Option Nat → Option Nat × Device
  | none => (some result.1, ⟨result.2, true⟩)
  | some k => (none, ⟨outage s result.2 k, false⟩)

def event (l : Layout) (d : Device) : Event → Option Nat × Device
  | .start cut =>
    let s := powered d.state
    finish s ((dataEEInit l s).1, eepromInit l s) cut
  | .fail => (none, ⟨powered d.state, false⟩)
  | .read addr =>
    if d.running then
      let (value, s) := dataEERead l addr d.state
      (some value.toNat, ⟨s, true⟩)
    else (none, d)
  | .write data addr cut => if d.running then finish d.state (dataEEWrite l data addr d.state) cut else (none, d)

def events (l : Layout) (d : Device) (es : List Event) : Device := es.foldl (fun d e => (event l d e).2) d

def answers (l : Layout) : Device → List Event → List (Option Nat)
  | _, [] => []
  | d, e :: es => (event l d e).1 :: answers l (event l d e).2 es

/-! What is kept, as a caller sees it. -/

structure Kept where
  values : Values
  full : Bool
  running : Bool

/- A write that is cut off has been done or not; after it, or after a start that is cut off, the emulation may be full. -/
inductive Explained : Kept → Event → Option Nat → Kept → Prop
  | start {values full running} : Explained ⟨values, full, running⟩ (.start none) (some 0) ⟨values, full, true⟩
  | startCut {values full running later k} (lasting : full = true → later = true) :
      Explained ⟨values, full, running⟩ (.start (some k)) none ⟨values, later, false⟩
  | fail {values full running} : Explained ⟨values, full, running⟩ .fail none ⟨values, full, false⟩
  | readOff {values full addr} : Explained ⟨values, full, false⟩ (.read addr) none ⟨values, full, false⟩
  | writeOff {values full data addr cut} : Explained ⟨values, full, false⟩ (.write data addr cut) none ⟨values, full, false⟩
  | read {values full addr value} (answer : Answers values (.read addr) value) :
      Explained ⟨values, full, true⟩ (.read addr) (some value) ⟨values, full, true⟩
  | illegal {values full data addr} (outside : dataEETotalSize ≤ addr) :
      Explained ⟨values, full, true⟩ (.write data addr none) (some 5) ⟨values, full, true⟩
  | written {values data addr} (legal : addr < dataEETotalSize) :
      Explained ⟨values, false, true⟩ (.write data addr none) (some 0) ⟨Function.update values addr (some data), false, true⟩
  | unchanged {values data addr} (there : values addr = some data) :
      Explained ⟨values, true, true⟩ (.write data addr none) (some 0) ⟨values, true, true⟩
  | refused {values data addr} (legal : addr < dataEETotalSize) :
      Explained ⟨values, true, true⟩ (.write data addr none) (some 4) ⟨values, true, true⟩
  | cutBefore {values full data addr k} :
      Explained ⟨values, full, true⟩ (.write data addr (some k)) none ⟨values, full, false⟩
  | cutAfter {values data addr k later} (legal : addr < dataEETotalSize) :
      Explained ⟨values, false, true⟩ (.write data addr (some k)) none ⟨Function.update values addr (some data), later, false⟩

inductive Explains : Kept → List Event → List (Option Nat) → Prop
  | nil {kept} : Explains kept [] []
  | cons {kept next e es a as} (head : Explained kept e a next) (tail : Explains next es as) :
      Explains kept (e :: es) (a :: as)

/-! What program memory looks like after an outage. -/

def Keeps (journal : List (UInt8 × UInt16)) (values : Values) : Prop :=
  ∀ addr, addr < dataEETotalSize → latest journal addr.toUInt8 = values addr

/- The flag says that the active page has no room, and that nothing will be done about it. -/
inductive Survived (l : Layout) (m : ProgramMemory) (values : Values) : Bool → Prop
  | blank (empty : Empty l m) (none : ∀ addr, values addr = none) : Survived l m values false
  | room {packs journal} (stored : Stored l m packs journal) (fits : journal.length ≤ 510) (keeps : Keeps journal values) :
      Survived l m values false
  | doubled {packs journal} (both : Doubled l m packs journal) (length : journal.length = 511) (keeps : Keeps journal values) :
      Survived l m values false
  | full {packs journal} (readable : Readable l m packs journal) (length : journal.length = 511)
      (keeps : Keeps journal values) : Survived l m values true

/- Once the start is over there is one active page. -/
inductive Served (l : Layout) (m : ProgramMemory) (values : Values) : Bool → Prop
  | room {packs journal} (stored : Stored l m packs journal) (fits : journal.length ≤ 510) (keeps : Keeps journal values) :
      Served l m values false
  | full {packs journal} (readable : Readable l m packs journal) (length : journal.length = 511)
      (keeps : Keeps journal values) : Served l m values true

theorem Served.survived {l : Layout} {m : ProgramMemory} {values : Values} {full : Bool} (served : Served l m values full) :
    Survived l m values full := by
  cases served with
  | room stored fits keeps => exact .room stored fits keeps
  | full readable length keeps => exact .full readable length keeps

section Outages
variable {l : Layout} {s t : State} {values : Values} {packs : Nat} {journal : List (UInt8 × UInt16)} {full : Bool}

theorem outageLast {k : Nat} (enough : t.history.length ≤ s.history.length + k) : outage s t k = powered t := by
  have none : t.history.length - s.history.length - k = 0 := by omega
  rw [outage, none]

theorem outageNothing (memory : t.memory = s.memory) (history : t.history = s.history) (k : Nat) :
    (outage s t k).memory = s.memory := by
  rw [outageLast (by rw [history]; exact Nat.le_add_right _ _)]
  exact memory

/- Cut off before operation `lost`, counted from the last one. -/
theorem outageAt {new : List Done} (history : t.history = new ++ s.history) {k lost : Nat} (inside : lost < new.length)
    (count : k + lost + 1 = new.length) : (outage s t k).memory = (new[lost]).before := by
  have lost' : t.history.length - s.history.length - k = lost + 1 := by
    rw [history, List.length_append]
    omega
  have here : t.history[lost]? = some new[lost] := by
    rw [history, List.getElem?_append_left inside, List.getElem?_eq_getElem]
  rw [outage, lost']
  simp only [here]
  rfl

theorem outageAmong {new : List Done} (history : t.history = new ++ s.history) (k : Nat) :
    (outage s t k).memory = t.memory ∨ ∃ d ∈ new, (outage s t k).memory = d.before := by
  by_cases enough : new.length ≤ k
  · left
    rw [outageLast (by rw [history, List.length_append]; omega)]
    rfl
  · right
    have inside : new.length - k - 1 < new.length := by omega
    exact ⟨_, List.getElem_mem inside, outageAt history inside (by omega)⟩

theorem outageHistory {k : Nat} {d : Done} (member : d ∈ (outage s t k).history) : d ∈ t.history := by
  unfold outage at member
  split at member
  · exact member
  · exact List.mem_of_mem_drop member

theorem readMemory (addr : UInt16) (s : State) : (dataEERead l addr s).2.memory = s.memory := by
  unfold dataEERead
  simp only [apply_ite Prod.snd, apply_ite State.memory, markMemory, ite_self]

/-! A pack of a full page. -/

theorem PackDone.survived {later : State} (done : PackDone l packs journal s later) (stored : Stored l s.memory packs journal) :
    ∃ erase others, later.history = erase :: others ++ s.history ∧ others ≠ [] ∧
      (Orderly l erase ∧ Doubled l erase.before packs journal) ∧
      ∀ d ∈ others, Orderly l d ∧ Readable l d.before packs journal := by
  obtain ⟨rows, status, erase, history, programmed, ⟨statusOrderly, -, unfinished⟩, ⟨orderly, -⟩, doubled⟩ := done.history
  obtain ⟨-, other⟩ := successorPage packs
  refine ⟨erase, status :: rows, history, List.cons_ne_nil _ _, ⟨orderly, doubled⟩, List.forall_mem_cons.mpr ⟨⟨statusOrderly, ?_⟩, fun d row => ?_⟩⟩
  · obtain ⟨words, before, fits, head⟩ := unfinished
    rw [before]
    exact stored.readable.overwrite other fits head
  · obtain ⟨words, before, fits, head⟩ := (programmed d row).before
    rw [before]
    exact ⟨(programmed d row).orderly, stored.readable.overwrite other fits head⟩

theorem packedKeeps (keeps : Keeps journal values) : Keeps (packedJournal journal) values := by
  intro addr legal
  rw [latestPacked (addrKey (legalKey legal)).2, keeps addr legal]

theorem packedRoom (journal : List (UInt8 × UInt16)) : (packedJournal journal).length ≤ 510 :=
  Nat.le_trans (packedLength journal) (by decide)

/-! Starting. -/

/- The operations of a start, and what each of them would leave. -/
structure Starts (l : Layout) (s later : State) (values : Values) (full : Bool) : Prop where
  served : Served l later.memory values full
  cut : ∃ new, later.history = new ++ s.history ∧
    ∀ d ∈ new, Orderly l d ∧ ∃ now, (full = true → now = true) ∧ Survived l d.before values now

theorem Survived.start (survived : Survived l s.memory values full) :
    (dataEEInit l s).1 = 0 ∧ Starts l s (dataEEInit l s).2 values full := by
  cases survived with
  | blank empty none =>
    obtain ⟨stored, -, status, erase, history, ⟨statusOrderly, -, kept⟩, ⟨orderly, -, -, before⟩⟩ := startPageStored empty
    rw [initBlank empty]
    refine ⟨rfl, ⟨.room stored (Nat.zero_le _) fun addr _ => (none addr).symm, [status, erase], history, ?_⟩⟩
    refine List.forall_mem_cons.mpr ⟨⟨statusOrderly, false, id, .blank kept none⟩,
      List.forall_mem_singleton.mpr ⟨orderly, false, id, ?_⟩⟩
    rw [before]
    exact .blank empty none
  | room stored fits keeps =>
    rw [initReadable stored.readable]
    exact ⟨rfl, .room stored fits keeps, [], rfl, fun _ none => (by cases none)⟩
  | full readable length keeps =>
    rw [initReadable readable]
    exact ⟨rfl, .full readable length keeps, [], rfl, fun _ none => (by cases none)⟩
  | doubled both length keeps =>
    rename_i packs journal
    have erased := both.newErased
    obtain ⟨done, -⟩ := packEEDone erased
    obtain ⟨erase, others, history, -, ⟨orderly, doubled⟩, each⟩ := done.survived erased
    obtain ⟨first, isFirst⟩ : ∃ d : Done, d = ⟨.erasePage, firstWord l ((packs + 1) % 16), s.memory,
      (erasePage l ((packs + 1) % 16) s).memory⟩ := ⟨_, rfl⟩
    have began : (erasePage l ((packs + 1) % 16) s).history = first :: s.history := by
      rw [isFirst]
      exact erasePageDone l ((packs + 1) % 16) s
    obtain ⟨code, state⟩ := ofPair (initDoubled both length)
    rw [code, state]
    refine ⟨rfl, .room done.stored (packedRoom journal) (packedKeeps keeps), erase :: others ++ [first], ?_, ?_⟩
    · rw [history, began, List.append_assoc]
      rfl
    · intro d member
      rcases List.mem_append.mp member with packing | start
      · rcases List.mem_cons.mp packing with rfl | other
        · exact ⟨orderly, false, id, .doubled doubled length keeps⟩
        · exact ⟨(each d other).1, true, fun _ => rfl, .full (each d other).2 length keeps⟩
      · rw [List.mem_singleton.mp start, isFirst]
        exact ⟨eraseOrderly (Nat.mod_lt _ (by decide)) s, false, id, .doubled both length keeps⟩

/-! Writing. -/

/- The entry of the write is the last one its page has room for. -/
def FillsPage (l : Layout) (data addr : UInt16) (s : State) : Prop :=
  getNextAvailCount l s + 2 = deePageSize ∧
    ¬ ((dataEERead l addr s).1 = data ∧ (dataEERead l addr s).2.flags.addrNotFound = false)

instance (l : Layout) (data addr : UInt16) (s : State) : Decidable (FillsPage l data addr s) := by
  unfold FillsPage
  infer_instance

theorem Stored.fillsPage {data addr : UInt16} (stored : Stored l s.memory packs journal) (fits : journal.length ≤ 510)
    (legal : addr < 255) : FillsPage l data addr s ↔ journal.length = 510 ∧ ¬ Unchanged journal data addr s := by
  have room := stored.readable.nextAvail
  rw [if_neg (by omega)] at room
  rw [FillsPage, room, stored.readable.readsSame legal data]
  refine and_congr_left' ?_
  rw [show deePageSize = 1024 from rfl]
  omega

/- The operations of a write: none, its entry, or also the pack that the entry calls for when it `fills` the page. -/
inductive Written (l : Layout) (s later : State) (values now : Values) (fills : Prop) : Prop
  | same (few : ¬ fills) (memory : later.memory = s.memory) (history : later.history = s.history) (kept : now = values)
  | entry (few : ¬ fills) (d : Done) (history : later.history = [d] ++ s.history) (before : d.before = s.memory)
      (orderly : Orderly l d)
  | packed (full : fills) (erase d : Done) (others : List Done)
      (history : later.history = (erase :: others ++ [d]) ++ s.history) (some : others ≠ [])
      (before : d.before = s.memory) (orderly : ∀ x ∈ erase :: others ++ [d], Orderly l x)
      (doubled : Survived l erase.before now false) (between : ∀ x ∈ others, Survived l x.before now true)

theorem keptNow {data addr : UInt16} (legal : addr < dataEETotalSize) (keeps : Keeps journal values) :
    Keeps (journal ++ [(addr.toUInt8, data)]) (Function.update values addr (some data)) := by
  intro other legal'
  rw [latestAppend]
  by_cases here : addr = other
  · subst here
    rw [if_pos rfl, Function.update_self]
  · rw [if_neg fun equal => here ((keyAddr (legalKey legal) (legalKey legal')).mp equal), keeps other legal',
      Function.update_of_ne fun equal => here equal.symm]

theorem Served.write (served : Served l s.memory values false) (data : UInt16) {addr : UInt16} (legal : addr < dataEETotalSize) :
    (dataEEWrite l data addr s).1 = 0 ∧
      Served l (dataEEWrite l data addr s).2.memory (Function.update values addr (some data)) false ∧
      Written l s (dataEEWrite l data addr s).2 values (Function.update values addr (some data)) (FillsPage l data addr s) := by
  cases served with
  | room stored fits keeps =>
    rename_i packs journal
    have key := legalKey legal
    rw [stored.fillsPage fits key]
    by_cases same : Unchanged journal data addr s
    · have kept : Function.update values addr (some data) = values := by
        rw [← same.1, keeps addr legal, Function.update_eq_self]
      rw [stored.readable.writeSame key same, kept]
      exact ⟨rfl, .room stored fits keeps, .same (fun fills => fills.2 same) rfl rfl rfl⟩
    have written := stored.write key (by omega) same
    have added : Stored l (entered l packs journal data addr s).memory packs (journal ++ [(addr.toUInt8, data)]) :=
      enteredStored (by omega) stored key
    have now : Keeps (journal ++ [(addr.toUInt8, data)]) (Function.update values addr (some data)) := keptNow legal keeps
    have length : (journal ++ [(addr.toUInt8, data)]).length = journal.length + 1 := List.length_append
    obtain ⟨d, entry⟩ : ∃ d : Done, d = ⟨.programWord, firstWord l (packs % 16) + (journal.length + 1), s.memory,
      (entered l packs journal data addr s).memory⟩ := ⟨_, rfl⟩
    have history : (entered l packs journal data addr s).history = d :: s.history := by rw [entry]; rfl
    have orderly : Orderly l d := by
      rw [entry]
      exact enteredOrderly (by omega) stored
    have before : d.before = s.memory := by rw [entry]
    rw [written]
    by_cases last : journal.length = 510
    · obtain ⟨done, -⟩ := packEEDone added
      obtain ⟨erase, others, packing, some, ⟨eraseOrderly, doubled⟩, each⟩ := done.survived added
      simp only [last, if_true]
      refine ⟨trivial, .room done.stored (packedRoom _) (packedKeeps now), .packed ⟨trivial, same⟩ erase d others ?_ some before ?_
        (.doubled doubled (by omega) now) fun x other => .full (each x other).2 (by omega) now⟩
      · rw [packing, history, List.append_assoc]
        rfl
      · intro x member
        rcases List.mem_append.mp member with packing | entered
        · rcases List.mem_cons.mp packing with rfl | other
          · exact eraseOrderly
          · exact (each x other).1
        · rw [List.mem_singleton.mp entered]
          exact orderly
    · simp only [last, if_false]
      exact ⟨trivial, .room added (by omega) now, .entry (fun fills => fills.1) d history before orderly⟩

theorem Served.writeFull (served : Served l s.memory values true) (data : UInt16) {addr : UInt16}
    (legal : addr < dataEETotalSize) :
    (dataEEWrite l data addr s).2.memory = s.memory ∧ (dataEEWrite l data addr s).2.history = s.history ∧
      ((dataEEWrite l data addr s).1 = 4 ∨ (dataEEWrite l data addr s).1 = 0 ∧ values addr = some data) := by
  cases served with
  | full readable length keeps =>
    rename_i packs journal
    have key := legalKey legal
    by_cases same : Unchanged journal data addr s
    · rw [readable.writeSame key same, ← keeps addr legal]
      exact ⟨rfl, rfl, Or.inr ⟨rfl, same.1⟩⟩
    · rw [readable.writeRefused key same length]
      exact ⟨rfl, rfl, Or.inl rfl⟩

/- Between the entry and the status word of the packed page an outage leaves the page full for good. -/
theorem Written.outage {later : State} {now : Values} {fills : Prop} [Decidable fills]
    (written : Written l s later values now fills)
    (served : Served l s.memory values false) (finished : Served l later.memory now false) (k : Nat) :
    if fills ∧ 0 < k ∧ k + 1 < later.history.length - s.history.length then Survived l (DataEE.outage s later k).memory now true
    else Survived l (DataEE.outage s later k).memory values false ∨ Survived l (DataEE.outage s later k).memory now false := by
  cases written with
  | same few memory history kept =>
    rw [if_neg fun between => few between.1, outageLast (by rw [history]; omega)]
    right
    exact finished.survived
  | entry few d history before orderly =>
    have count : later.history.length = s.history.length + 1 := by rw [history, List.length_append, Nat.add_comm]; rfl
    rw [if_neg fun between => few between.1]
    cases k with
    | zero =>
      left
      have nothing : (DataEE.outage s later 0).memory = d.before :=
        outageAt history (show 0 < [d].length from Nat.zero_lt_one) rfl
      rw [nothing, before]
      exact served.survived
    | succ k =>
      right
      rw [outageLast (by omega)]
      exact finished.survived
  | packed full erase d others history some before orderly doubled between =>
    have length : (erase :: others ++ [d]).length = others.length + 2 := by simp
    have count : later.history.length = s.history.length + (others.length + 2) := by
      rw [history, List.length_append, length, Nat.add_comm]
    by_cases within : 0 < k ∧ k + 1 < others.length + 2
    · rw [if_pos ⟨full, by omega⟩]
      obtain ⟨lost, sum⟩ : ∃ lost, k + lost = others.length := ⟨others.length - k, by omega⟩
      have inside : lost + 1 < (erase :: others ++ [d]).length := by omega
      have other : lost < others.length := by omega
      have here : (erase :: others ++ [d])[lost + 1] = others[lost] := by
        simp only [List.cons_append, List.getElem_cons_succ, List.getElem_append_left other]
      rw [outageAt history inside (by omega), here]
      exact between _ (List.getElem_mem other)
    · rw [if_neg fun between' => within (by omega)]
      by_cases none : k = 0
      · left
        have inside : others.length + 1 < (erase :: others ++ [d]).length := by omega
        have here : (erase :: others ++ [d])[others.length + 1] = d := by simp
        rw [outageAt history inside (by omega), here, before]
        exact served.survived
      by_cases erasing : k = others.length + 1
      · right
        have inside : 0 < (erase :: others ++ [d]).length := by omega
        rw [outageAt history inside (by omega)]
        exact doubled
      · right
        rw [outageLast (by omega)]
        exact finished.survived

theorem Written.fillsWindow {later : State} {now : Values} {fills : Prop} (written : Written l s later values now fills)
    (full : fills) : 2 < later.history.length - s.history.length := by
  cases written with
  | same few => exact absurd full few
  | entry few => exact absurd full few
  | packed full erase d others history some =>
    have other := List.length_pos_of_ne_nil some
    rw [history, List.length_append, List.length_append, List.length_cons, List.length_singleton]
    omega

theorem Written.orderly {later : State} {now : Values} {fills : Prop} (written : Written l s later values now fills)
    (before : ∀ d ∈ s.history, Orderly l d) : ∀ d ∈ later.history, Orderly l d := by
  cases written with
  | same few memory history kept => rwa [history]
  | entry few d history before' orderly =>
    rw [history]
    exact List.forall_mem_cons.mpr ⟨orderly, before⟩
  | packed full erase d others history some before' orderly doubled between =>
    rw [history]
    exact List.forall_mem_append.mpr ⟨orderly, before⟩

end Outages

/-! Runs. -/

structure Alive (l : Layout) (d : Device) (kept : Kept) : Prop where
  running : d.running = kept.running
  survived : Survived l d.state.memory kept.values kept.full
  served : kept.running = true → Served l d.state.memory kept.values kept.full
  orderly : ∀ done ∈ d.state.history, Orderly l done

section Runs
variable {l : Layout} {d : Device} {kept : Kept} {values : Values} {full : Bool}

theorem Alive.start {running : Bool} (alive : Alive l d ⟨values, full, running⟩) (cut : Option Nat) :
    ∃ next, Explained ⟨values, full, running⟩ (.start cut) (event l d (.start cut)).1 next ∧
      Alive l (event l d (.start cut)).2 next := by
  have began : Survived l (powered d.state).memory values full := alive.survived
  obtain ⟨code, served, new, history, each⟩ := began.start
  have orderly : ∀ done ∈ (eepromInit l (powered d.state)).history, Orderly l done := by
    have all : ∀ done ∈ (dataEEInit l (powered d.state)).2.history, Orderly l done := by
      rw [history]
      exact List.forall_mem_append.mpr ⟨fun done member => (each done member).1, alive.orderly⟩
    exact all
  cases cut with
  | none =>
    simp only [event, finish, code]
    exact ⟨_, .start, rfl, served.survived, fun _ => served, orderly⟩
  | some k =>
    have history' : (eepromInit l (powered d.state)).history = new ++ (powered d.state).history := history
    obtain ⟨later, lasting, survived⟩ : ∃ later, (full = true → later = true) ∧
        Survived l (outage (powered d.state) (eepromInit l (powered d.state)) k).memory values later := by
      rcases outageAmong history' k with done | ⟨done, member, before⟩
      · rw [done]
        exact ⟨full, id, served.survived⟩
      · rw [before]
        exact (each done member).2
    exact ⟨⟨values, later, false⟩, .startCut lasting, rfl, survived, fun on => (by cases on),
      fun done member => orderly done (outageHistory member)⟩

theorem Alive.read (alive : Alive l d ⟨values, full, true⟩) (addr : UInt16) :
    ∃ next, Explained ⟨values, full, true⟩ (.read addr) (event l d (.read addr)).1 next ∧
      Alive l (event l d (.read addr)).2 next := by
  obtain ⟨packs, journal, readable, keeps⟩ : ∃ packs journal, Readable l d.state.memory packs journal ∧ Keeps journal values := by
    cases alive.served rfl with
    | room stored fits keeps => exact ⟨_, _, stored.readable, keeps⟩
    | full readable length keeps => exact ⟨_, _, readable, keeps⟩
  have on : d.running = true := alive.running
  by_cases legal : addr < dataEETotalSize
  · have memory : (dataEERead l addr d.state).2.memory = d.state.memory ∧
        (dataEERead l addr d.state).2.history = d.state.history ∧ (dataEERead l addr d.state).1 = (values addr).getD 0xFFFF := by
      rw [readable.read (legalKey legal), ← keeps addr legal]
      cases latest journal addr.toUInt8 <;> exact ⟨rfl, rfl, rfl⟩
    obtain ⟨same, history, value⟩ := memory
    simp only [event, on, if_true]
    refine ⟨⟨values, full, true⟩, .read ?_, rfl, ?_, fun _ => ?_, ?_⟩
    · rw [Answers, if_pos legal, value]
    · rw [same]
      exact alive.survived
    · rw [same]
      exact alive.served rfl
    · rw [history]
      exact alive.orderly
  · have refused : dataEERead l addr d.state = (0xFFFF, d.state.mark fun f => { f with illegalAddress := true }) :=
      if_pos (UInt16.not_lt.mp legal)
    simp only [event, on, if_true, refused]
    refine ⟨⟨values, full, true⟩, .read ?_, rfl, alive.survived, alive.served, alive.orderly⟩
    rw [Answers, if_neg legal]
    rfl

theorem Alive.write (alive : Alive l d ⟨values, full, true⟩) (data addr : UInt16) (cut : Option Nat) :
    ∃ next, Explained ⟨values, full, true⟩ (.write data addr cut) (event l d (.write data addr cut)).1 next ∧
      Alive l (event l d (.write data addr cut)).2 next := by
  have on : d.running = true := alive.running
  simp only [event, on, if_true]
  by_cases legal : addr < dataEETotalSize
  · cases full with
    | true =>
      obtain ⟨memory, history, answer⟩ := (alive.served rfl).writeFull data legal
      have survived : Survived l (dataEEWrite l data addr d.state).2.memory values true := by
        rw [memory]
        exact alive.survived
      have orderly : ∀ done ∈ (dataEEWrite l data addr d.state).2.history, Orderly l done := by
        rw [history]
        exact alive.orderly
      cases cut with
      | none =>
        refine ⟨⟨values, true, true⟩, ?_, rfl, survived, fun _ => ?_, orderly⟩
        · rcases answer with refused | ⟨same, there⟩
          · simp only [finish, refused]
            exact .refused legal
          · simp only [finish, same]
            exact .unchanged there
        · simp only [finish, memory]
          exact alive.served rfl
      | some k =>
        refine ⟨⟨values, true, false⟩, .cutBefore, rfl, ?_, fun on => (by cases on), fun done member =>
          orderly done (outageHistory member)⟩
        simp only [finish]
        rw [outageNothing memory history]
        exact alive.survived
    | false =>
      obtain ⟨code, served, written⟩ := (alive.served rfl).write data legal
      have orderly := written.orderly alive.orderly
      cases cut with
      | none =>
        simp only [finish, code]
        exact ⟨_, .written legal, rfl, served.survived, fun _ => served, orderly⟩
      | some k =>
        have outcome := written.outage (alive.served rfl) served k
        have done := fun done member => orderly done (outageHistory (s := d.state) (k := k) member)
        split at outcome
        · exact ⟨_, .cutAfter legal, rfl, outcome, fun on => (by cases on), done⟩
        · rcases outcome with before | after
          · exact ⟨_, .cutBefore, rfl, before, fun on => (by cases on), done⟩
          · exact ⟨_, .cutAfter legal, rfl, after, fun on => (by cases on), done⟩
  · have refused : dataEEWrite l data addr d.state = (5, d.state.mark fun f => { f with illegalAddress := true }) :=
      if_pos (UInt16.not_lt.mp legal)
    rw [refused]
    cases cut with
    | none => exact ⟨_, .illegal (UInt16.not_lt.mp legal), rfl, alive.survived, alive.served, alive.orderly⟩
    | some k =>
      refine ⟨⟨values, full, false⟩, .cutBefore, rfl, ?_, fun on => (by cases on), fun done member =>
        alive.orderly done (outageHistory member)⟩
      have nothing : (outage d.state (d.state.mark fun f => { f with illegalAddress := true }) k).memory = d.state.memory :=
        outageNothing rfl rfl k
      simp only [finish, nothing]
      exact alive.survived

theorem Alive.event (alive : Alive l d kept) (e : Event) :
    ∃ next, Explained kept e (event l d e).1 next ∧ Alive l (event l d e).2 next := by
  obtain ⟨values, full, running⟩ := kept
  cases e with
  | start cut => exact alive.start cut
  | fail => exact ⟨⟨values, full, false⟩, .fail, rfl, alive.survived, fun on => (by cases on), alive.orderly⟩
  | read addr =>
    cases running with
    | true => exact alive.read addr
    | false =>
      have off : d.running = false := alive.running
      simp only [DataEE.event, off, Bool.false_eq_true, if_false]
      exact ⟨_, .readOff, alive⟩
  | write data addr cut =>
    cases running with
    | true => exact alive.write data addr cut
    | false =>
      have off : d.running = false := alive.running
      simp only [DataEE.event, off, Bool.false_eq_true, if_false]
      exact ⟨_, .writeOff, alive⟩

theorem Alive.events (alive : Alive l d kept) (es : List Event) :
    Explains kept es (answers l d es) ∧ ∃ later, Alive l (events l d es) later := by
  induction es generalizing d kept with
  | nil => exact ⟨.nil, kept, alive⟩
  | cons e es ih =>
    obtain ⟨next, explained, alive'⟩ := alive.event e
    obtain ⟨rest, later⟩ := ih alive'
    exact ⟨.cons explained rest, later⟩

/- A device whose emulation pages are blank, without power. -/
def unpowered (m : ProgramMemory) : Device := ⟨restart m, false⟩

theorem unpoweredAlive {m : ProgramMemory} (blank : Empty l m) : Alive l (unpowered m) ⟨fun _ => none, false, false⟩ :=
  ⟨rfl, .blank blank fun _ => rfl, fun on => (by cases on), fun _ none => (by cases none)⟩

/-! Full for good. -/

def Refuses (l : Layout) (d : Device) : Prop := ∀ data addr, addr < dataEETotalSize →
  (event l d (.write data addr none)).1 = some 4 ∨
    (event l d (.write data addr none)).1 = some 0 ∧ (event l d (.read addr)).1 = some data.toNat

def RefusesForGood (l : Layout) (d : Device) : Prop := ∀ later,
  (events l d later).state.memory = d.state.memory ∧ ((events l d later).running = true → Refuses l (events l d later))

def Accepts (l : Layout) (d : Device) : Prop := ∀ data addr, addr < dataEETotalSize →
  (event l d (.write data addr none)).1 = some 0

def operationCount (l : Layout) (data addr : UInt16) (s : State) : Nat :=
  (dataEEWrite l data addr s).2.history.length - s.history.length

/- The write is cut off, and the power comes back. -/
def interrupted (l : Layout) (data addr : UInt16) (k : Nat) (d : Device) : Device :=
  events l d [.write data addr (some k), .start none]

theorem fullEvent (survived : Survived l d.state.memory values true) (e : Event) :
    (event l d e).2.state.memory = d.state.memory ∧ (d.running = true → Refuses l d) := by
  cases survived with
  | full readable length keeps =>
    rename_i packs journal
    have started : Readable l (powered d.state).memory packs journal := readable
    have served : Served l d.state.memory values true := .full readable length keeps
    refine ⟨?_, fun on data addr legal => ?_⟩
    · cases e with
      | start cut =>
        simp only [event]
        have same : eepromInit l (powered d.state) = powered d.state := by
          rw [eepromInit, initReadable started]
          rfl
        rw [same]
        cases cut with
        | none => rfl
        | some k =>
          exact outageNothing rfl rfl k
      | fail => rfl
      | read addr =>
        simp only [event]
        split
        · exact readMemory addr d.state
        · rfl
      | write data addr cut =>
        simp only [event]
        split
        · by_cases legal : addr < dataEETotalSize
          · obtain ⟨memory, history, -⟩ := served.writeFull data legal
            cases cut with
            | none => exact memory
            | some k =>
              exact outageNothing memory history k
          · have refused : dataEEWrite l data addr d.state = (5, d.state.mark fun f => { f with illegalAddress := true }) :=
              if_pos (UInt16.not_lt.mp legal)
            rw [refused]
            cases cut with
            | none => rfl
            | some k =>
              exact outageNothing rfl rfl k
        · rfl
    · obtain ⟨-, -, answer⟩ := served.writeFull data legal
      simp only [event, on, if_true, finish]
      rcases answer with refused | ⟨same, there⟩
      · left
        rw [refused]
      · right
        rw [same, readable.read (legalKey legal), keeps addr legal, there]
        exact ⟨rfl, rfl⟩

theorem fullEvents (survived : Survived l d.state.memory values true) : RefusesForGood l d := by
  intro es
  induction es generalizing d with
  | nil => exact ⟨rfl, (fullEvent survived .fail).2⟩
  | cons e es ih =>
    have same := (fullEvent survived e).1
    have later : Survived l (event l d e).2.state.memory values true := by rwa [same]
    obtain ⟨memory, refuses⟩ := ih later
    exact ⟨memory.trans same, refuses⟩

theorem Alive.notFull (alive : Alive l d kept) (running : d.running = true) (room : getNextAvailCount l d.state ≠ 0) :
    kept.full = false ∧ Served l d.state.memory kept.values false := by
  have on : kept.running = true := alive.running ▸ running
  have served := alive.served on
  cases full : kept.full with
  | false => exact ⟨rfl, full ▸ served⟩
  | true =>
    rw [full] at served
    cases served with
    | full readable length keeps => exact absurd (by rw [readable.nextAvail, if_pos length]) room

theorem Served.accepts (served : Served l d.state.memory values false) (on : d.running = true) : Accepts l d := by
  intro data addr legal
  simp only [event, on, if_true, finish, (served.write data legal).1]

theorem interruptedStart {data addr : UInt16} {k : Nat} (on : d.running = true) : interrupted l data addr k d =
    (event l ⟨outage d.state (dataEEWrite l data addr d.state).2 k, false⟩ (.start none)).2 := by
  change (event l (event l d (.write data addr (some k))).2 (.start none)).2 = _
  simp only [event, on, if_true, finish]

/- The restart comes to what the outage left. -/
theorem interruptedServed {data addr : UInt16} {k : Nat} (on : d.running = true)
    (survived : Survived l (outage d.state (dataEEWrite l data addr d.state).2 k).memory values full) :
    Served l (interrupted l data addr k d).state.memory values full := by
  have began : Survived l (powered (outage d.state (dataEEWrite l data addr d.state).2 k)).memory values full := survived
  rw [interruptedStart on]
  exact began.start.2.served

/- A caller can tell the two apart. -/
theorem Accepts.notRefusesForGood (accepts : Accepts l d) (on : d.running = true) : ¬ RefusesForGood l d := by
  intro refuses
  have legal : (0 : UInt16) < dataEETotalSize := by decide
  obtain ⟨old, read⟩ : ∃ old, (dataEERead l 0 d.state).1 = old := ⟨_, rfl⟩
  have answer : (event l d (.read 0)).1 = some old.toNat := by simp only [event, on, if_true, read]
  have accepted := accepts (old + 1) 0 legal
  rcases (refuses []).2 on (old + 1) 0 legal with refused | ⟨-, there⟩
  · have refused : (event l d (.write (old + 1) 0 none)).1 = some 4 := refused
    rw [accepted] at refused
    cases refused
  · have there : (event l d (.read 0)).1 = some (old + 1).toNat := there
    rw [answer, Option.some_inj, UInt16.toNat_inj] at there
    have next : old.toNat = (old.toNat + 1) % 65536 := by simpa using congrArg UInt16.toNat there
    omega

end Runs

/-! Main results. -/

/- A run with any number of outages is a run of a store that is kept, but that may be full for good after one. -/
theorem outagesExplained (l : Layout) (m : ProgramMemory) (blank : Empty l m) (es : List Event) :
    Explains ⟨fun _ => none, false, false⟩ es (answers l (unpowered m) es) :=
  ((unpoweredAlive blank).events es).1

theorem outagesExplainedWitness : Explains ⟨fun _ => none, false, false⟩
    [.start (some 1), .start none, .write 7 3 (some 1), .start none] (answers nowhere (unpowered fun _ => erased)
      [.start (some 1), .start none, .write 7 3 (some 1), .start none]) :=
  outagesExplained nowhere _ (fun _ _ _ _ => rfl) _

/- Whenever the power fails, only words that are erased are programmed, and nothing outside the emulation pages. -/
theorem onlyErasedProgrammed (l : Layout) (m : ProgramMemory) (blank : Empty l m) (es : List Event) :
    ∀ d ∈ (events l (unpowered m) es).state.history, Orderly l d := by
  obtain ⟨-, later, alive⟩ := (unpoweredAlive blank).events es
  exact alive.orderly

def OrderlySince (l : Layout) (d : Device) : Prop := ∀ done ∈ d.state.history, Orderly l done

theorem onlyErasedProgrammedWitness : OrderlySince nowhere (events nowhere (unpowered fun _ => erased)
    [.start none, .write 7 3 (some 1), .start none]) :=
  onlyErasedProgrammed nowhere _ (fun _ _ _ _ => rfl) _

/- An outage in a write makes the emulation refuse every new value for good, and does so exactly when it comes behind the
entry that fills the page and before the status word of the packed one. -/
theorem refusedForGood (l : Layout) (m : ProgramMemory) (blank : Empty l m) (es : List Event) (data addr : UInt16) (k : Nat)
    (legal : addr < dataEETotalSize) (running : (events l (unpowered m) es).running = true)
    (room : getNextAvailCount l (events l (unpowered m) es).state ≠ 0) :
    (FillsPage l data addr (events l (unpowered m) es).state →
      2 < operationCount l data addr (events l (unpowered m) es).state) ∧
    (RefusesForGood l (interrupted l data addr k (events l (unpowered m) es)) ↔
      FillsPage l data addr (events l (unpowered m) es).state ∧
        0 < k ∧ k + 1 < operationCount l data addr (events l (unpowered m) es).state) ∧
    (Accepts l (interrupted l data addr k (events l (unpowered m) es)) ↔
      ¬ (FillsPage l data addr (events l (unpowered m) es).state ∧
        0 < k ∧ k + 1 < operationCount l data addr (events l (unpowered m) es).state)) := by
  obtain ⟨-, kept, alive⟩ := (unpoweredAlive blank).events es
  generalize events l (unpowered m) es = d at running room alive
  obtain ⟨-, served⟩ := alive.notFull running room
  obtain ⟨-, done, written⟩ := served.write data legal
  have outcome := written.outage served done k
  have on : (interrupted l data addr k d).running = true := by
    rw [interruptedStart running]
    rfl
  refine ⟨written.fillsWindow, ?_⟩
  unfold operationCount
  split at outcome
  · rename_i between
    have refuses := fullEvents (interruptedServed running outcome).survived
    exact ⟨iff_of_true refuses between, iff_of_false (fun accepts => accepts.notRefusesForGood on refuses) (not_not_intro between)⟩
  · rename_i outside
    have accepts : Accepts l (interrupted l data addr k d) := by
      rcases outcome with before | afterwards
      · exact (interruptedServed running before).accepts on
      · exact (interruptedServed running afterwards).accepts on
    exact ⟨iff_of_false (accepts.notRefusesForGood on) outside, iff_of_true accepts outside⟩

/-! A page filled to its last entry by one address that keeps changing. -/

def changes (n : Nat) : List Event := .start none :: (List.range n).map fun i => .write (UInt16.ofNat i) 0 none

theorem changesEntered {l : Layout} {m : ProgramMemory} (blank : Empty l m) (n : Nat) (fits : n ≤ 510) :
    (events l (unpowered m) (changes n)).running = true ∧
      ∃ journal, Stored l (events l (unpowered m) (changes n)).state.memory 0 journal ∧ journal.length = n ∧
        ∀ i < 65536, n ≤ i → latest journal 0 ≠ some (UInt16.ofNat i) := by
  induction n with
  | zero =>
    obtain ⟨stored, -⟩ := startPageStored (s := powered (unpowered m).state) (l := l) blank
    refine ⟨rfl, [], ?_, rfl, fun i _ _ => by simp⟩
    have start : (events l (unpowered m) (changes 0)).state = eepromInit l (powered (unpowered m).state) := rfl
    have begun : dataEEInit l (powered (unpowered m).state) = (0, startPage l (powered (unpowered m).state)) := initBlank blank
    rw [start, eepromInit, begun]
    exact stored
  | succ n ih =>
    obtain ⟨on, journal, stored, length, other⟩ := ih (by omega)
    have changed : ¬ Unchanged journal (UInt16.ofNat n) 0 (events l (unpowered m) (changes n)).state := fun same =>
      other n (by omega) (Nat.le_refl n) same.1
    have next : events l (unpowered m) (changes (n + 1)) =
        (event l (events l (unpowered m) (changes n)) (.write (UInt16.ofNat n) 0 none)).2 := by
      rw [changes, List.range_succ, List.map_append, ← List.cons_append, events, List.foldl_append]
      rfl
    have entry := stored.write (by decide) (by omega) changed
    rw [if_neg (by omega)] at entry
    simp only [next, event, on, if_true, finish, entry]
    refine ⟨trivial, _, enteredStored (by omega) stored (by decide), by simp [length], fun i inside later same => ?_⟩
    have key : (0 : UInt16).toUInt8 = 0 := rfl
    rw [latestAppend, if_pos key, Option.some_inj] at same
    have equal := congrArg UInt16.toNat same
    simp only [UInt16.toNat_ofNat'] at equal
    omega

/- The power fails behind the entry that fills the page, or before it. -/
theorem refusedForGoodWitness :
    FillsPage nowhere 510 0 (events nowhere (unpowered fun _ => erased) (changes 510)).state ∧
    RefusesForGood nowhere (interrupted nowhere 510 0 1 (events nowhere (unpowered fun _ => erased) (changes 510))) ∧
    Accepts nowhere (interrupted nowhere 510 0 0 (events nowhere (unpowered fun _ => erased) (changes 510))) := by
  have blank : Empty nowhere fun _ => erased := fun _ _ _ _ => rfl
  obtain ⟨on, journal, stored, length, other⟩ := changesEntered blank 510 (Nat.le_refl _)
  have legal : (0 : UInt16) < dataEETotalSize := by decide
  have fills : FillsPage nowhere 510 0 (events nowhere (unpowered fun _ => erased) (changes 510)).state :=
    (stored.fillsPage (by omega) (legalKey legal)).mpr ⟨length, fun same => other 510 (by decide) (Nat.le_refl _) same.1⟩
  have room : getNextAvailCount nowhere (events nowhere (unpowered fun _ => erased) (changes 510)).state ≠ 0 := by
    rw [stored.readable.nextAvail, if_neg (by omega)]
    omega
  obtain ⟨enough, refuses, -⟩ := refusedForGood nowhere _ blank (changes 510) 510 0 1 legal on room
  obtain ⟨-, -, accepts⟩ := refusedForGood nowhere _ blank (changes 510) 510 0 0 legal on room
  exact ⟨fills, refuses.mpr ⟨fills, Nat.zero_lt_one, enough fills⟩, accepts.mpr fun between => absurd between.2.1 (Nat.lt_irrefl 0)⟩

end OrazioLogger.DataEE
