import OrazioLogger.DataEESwitch
import Mathlib.Data.List.Nodup

/-! Starting the emulation and writing to it: between calls the active page has room for an entry, and what is read is
what was written last. -/
namespace OrazioLogger.DataEE
open Journal

/-! Starting. -/

section Starting
variable {l : Layout} {s : State} {packs : Nat} {journal : List (UInt8 × UInt16)}

def Empty (l : Layout) (m : ProgramMemory) : Prop := ∀ page < 16, Blank l m page

theorem freshPage {page : Nat} (inside : page < 16) (blank : cell l s.memory page 0 = erased) :
    ¬ ((List.range numDataEEPages).all fun page => getPageStatus l s page .expired = pageExpired) = true := by
  intro all
  have expired := List.all_eq_true.mp all page (List.mem_range.mpr inside)
  rw [decide_eq_true_eq, expiredStatus, blank] at expired
  exact absurd expired (by decide)

/- How many pages are current, from where they are. -/
theorem currentPages (l : Layout) (s : State) (pages : List Nat) (sorted : pages.Nodup)
    (exact' : ∀ page, page ∈ pages ↔ page < 16 ∧ getPageStatus l s page .current = pageCurrent) :
    ((List.range numDataEEPages).filter fun page => getPageStatus l s page .current = pageCurrent).length = pages.length := by
  refine List.Perm.length_eq ((List.perm_ext_iff_of_nodup (List.nodup_range.filter _) sorted).mpr fun page => ?_)
  rw [List.mem_filter, exact', List.mem_range, decide_eq_true_eq]
  rfl

theorem initBlank (blank : Empty l s.memory) : dataEEInit l s = (0, startPage l s) := by
  have none := currentPages l s [] List.nodup_nil fun page => ⟨fun none => (by cases none), fun ⟨inside, current⟩ => by
    rw [currentStatus, blank page inside 0 (by decide)] at current
    exact absurd current (by decide)⟩
  unfold dataEEInit
  rw [if_neg (freshPage (by decide) (blank 0 (by decide) 0 (by decide)))]
  simp only [none, List.length_nil, if_true]

theorem initReadable (readable : Readable l s.memory packs journal) : dataEEInit l s = (0, s) := by
  obtain ⟨-, other⟩ := successorPage packs
  have one := currentPages l s [packs % 16] (List.nodup_singleton _) fun page => by
    rw [List.mem_singleton]
    constructor
    · rintro rfl
      refine ⟨Nat.mod_lt _ (by decide), ?_⟩
      rw [currentStatus, readable.active.status]
      exact (statusBits packs).2
    · rintro ⟨inside, current⟩
      by_contra apart
      rw [currentStatus, readable.others page inside apart] at current
      exact absurd current (by decide)
  unfold dataEEInit
  rw [if_neg (freshPage (Nat.mod_lt _ (by decide)) (readable.others _ (Nat.mod_lt _ (by decide)) other))]
  simp only [one, List.length_singleton, Nat.one_ne_zero, if_false, if_true]

/- Page 0 becomes a page without entries. -/
theorem startPageStored (blank : Empty l s.memory) : Stored l (startPage l s).memory 0 [] ∧
    (startPage l s).flags = s.flags ∧
    ∃ status erase, (startPage l s).history = status :: erase :: s.history ∧
      (Orderly l status ∧ status.operation = .programWord ∧ Empty l status.before) ∧
      (Orderly l erase ∧ erase.operation = .erasePage ∧ erase.target = firstWord l 0 ∧ erase.before = s.memory) := by
  have kept : Empty l (erasePage l 0 s).memory := by
    intro page inside i word
    rw [erasePageCell _ _ _ word]
    split
    · rfl
    · exact blank page inside i word
  have written : startPage l s =
      unlockWrite (latched { erasePage l 0 s with nvmcon := .programWord } (firstWord l 0) ⟨0xF3, 0⟩) := by
    unfold startPage
    simp only [wordOffsetZero, writeWord (show 0 < 512 by decide)]
    rfl
  have first := kept 0 (by decide) 0 (by decide)
  have memory : (startPage l s).memory = Function.update (erasePage l 0 s).memory (firstWord l 0) ⟨0xF3, 0⟩ := by
    rw [written]
    exact unlockWord rfl first
  have cells : ∀ page i, i < 512 → cell l (startPage l s).memory page i =
      if page = 0 ∧ i = 0 then ⟨0xF3, 0⟩ else cell l (erasePage l 0 s).memory page i := by
    intro page i inside
    have start : firstWord l 0 = firstWord l 0 + 0 := rfl
    rw [memory, start, cellUpdate inside (by decide)]
  refine ⟨⟨⟨?_, fun i inside => ?_, fun _ none => (by cases none), Nat.zero_le _⟩, fun page inside other i word => ?_⟩, ?_,
    ⟨.programWord, firstWord l 0, (erasePage l 0 s).memory, (startPage l s).memory⟩,
    ⟨.erasePage, firstWord l 0, s.memory, (erasePage l 0 s).memory⟩, ?_, ⟨?_, rfl, kept⟩,
    eraseOrderly (by decide) s, rfl, rfl, rfl⟩
  · rw [cells _ _ (by decide), if_pos ⟨rfl, rfl⟩]
    rfl
  · rw [cells _ _ (by omega), if_neg fun same => Nat.succ_ne_zero i same.2, kept _ (by decide) _ (by omega)]
    rfl
  · rw [cells _ _ word, if_neg fun same => other same.1]
    exact kept page inside i word
  · rw [written]
    rfl
  · rw [← erasePageDone, written]
    rfl
  · have orderly := wordOrderly (l := l) (s := { erasePage l 0 s with nvmcon := .programWord }) ⟨0xF3, 0⟩ rfl first
      ⟨0, by decide, 0, by decide, rfl⟩
    rw [written]
    exact orderly

/-! Two current pages: the power failed while a pack was being completed. -/

theorem Doubled.current (doubled : Doubled l s.memory packs journal) {page : Nat} (inside : page < 16) :
    getPageStatus l s page .current = if page = packs % 16 ∨ page = (packs + 1) % 16 then pageCurrent else pageNotCurrent := by
  rw [currentStatus]
  by_cases old : page = packs % 16
  · rw [if_pos (Or.inl old), old, doubled.active.status]
    exact (statusBits packs).2
  by_cases new : page = (packs + 1) % 16
  · rw [if_pos (Or.inr new), new, doubled.packed.status]
    exact (statusBits (packs + 1)).2
  · rw [if_neg fun either => either.elim old new, doubled.others page inside old new 0 (by decide)]
    decide

theorem Doubled.isCurrent (doubled : Doubled l s.memory packs journal) {page : Nat} (inside : page < 16) :
    getPageStatus l s page .current = pageCurrent ↔ page = packs % 16 ∨ page = (packs + 1) % 16 := by
  rw [doubled.current inside]
  by_cases either : page = packs % 16 ∨ page = (packs + 1) % 16
  · simp only [either, if_true]
  · rw [if_neg either]
    exact ⟨fun same => absurd same (by decide), fun same => absurd same either⟩

theorem Doubled.secondPage (doubled : Doubled l s.memory packs journal) : secondPage l s = (packs + 1) % 16 := by
  have old : packs % 16 < 16 := Nat.mod_lt _ (by decide)
  unfold DataEE.secondPage
  by_cases wrapped : packs % 16 = 15
  · have zero : (packs + 1) % 16 = 0 := by omega
    refine (if_pos ⟨?_, ?_⟩).trans zero.symm
    · exact (doubled.isCurrent (show 15 < 16 by decide)).mpr (Or.inl wrapped.symm)
    · exact (doubled.isCurrent (by decide)).mpr (Or.inr zero.symm)
  · have active : activePage l s = packs % 16 := by
      refine activePageFirst old ?_ fun other low => ?_
      · rw [doubled.current old, if_pos (Or.inl rfl)]
        decide
      · rw [doubled.current (Nat.lt_trans low old), if_neg (by omega)]
    rw [active, (successorPage packs).1]
    refine if_neg fun both => ?_
    have last := (doubled.isCurrent (show 15 < 16 by decide)).mp both.1
    have first := (doubled.isCurrent (show 0 < 16 by decide)).mp both.2
    omega

theorem initDoubled (doubled : Doubled l s.memory packs journal) (full : journal.length = 511) :
    dataEEInit l s = (0, (packEE l (erasePage l ((packs + 1) % 16) s)).2) := by
  have old : packs % 16 < 16 := Nat.mod_lt _ (by decide)
  have new : (packs + 1) % 16 < 16 := Nat.mod_lt _ (by decide)
  obtain ⟨-, other⟩ := successorPage packs
  have two := currentPages l s [packs % 16, (packs + 1) % 16]
    (by simpa using fun same => other same.symm) fun page => by
    rw [List.mem_cons, List.mem_singleton]
    constructor
    · intro either
      have inside : page < 16 := by omega
      exact ⟨inside, (doubled.isCurrent inside).mpr either⟩
    · rintro ⟨inside, current⟩
      exact (doubled.isCurrent inside).mp current
  obtain ⟨blank, inside, apart, apart'⟩ : ∃ page, page < 16 ∧ page ≠ packs % 16 ∧ page ≠ (packs + 1) % 16 :=
    ⟨(packs + 2) % 16, by omega, by omega, by omega⟩
  have room := doubled.newErased.readable.nextAvail
  rw [if_pos full] at room
  unfold dataEEInit
  rw [if_neg (freshPage inside (doubled.others blank inside apart apart' 0 (by decide)))]
  have length : [packs % 16, (packs + 1) % 16].length = 2 := rfl
  simp only [two, length, doubled.secondPage, room, if_true, show (2 : Nat) ≠ 0 by decide, show (2 : Nat) ≠ 1 by decide, if_false]

end Starting

/-! Writing. -/

section Writing
variable {l : Layout} {s : State} {packs : Nat} {journal : List (UInt8 × UInt16)} {data addr : UInt16}

/- The value is there, and no earlier read was in vain. -/
def Unchanged (journal : List (UInt8 × UInt16)) (data addr : UInt16) (s : State) : Prop :=
  latest journal addr.toUInt8 = some data ∧ s.flags.addrNotFound = false

instance (journal : List (UInt8 × UInt16)) (data addr : UInt16) (s : State) : Decidable (Unchanged journal data addr s) := by
  unfold Unchanged
  infer_instance

/- The state in which an entry is programmed into its word. -/
def entered (l : Layout) (packs : Nat) (journal : List (UInt8 × UInt16)) (data addr : UInt16) (s : State) : State :=
  unlockWrite (latched { s with nvmcon := .programWord } (firstWord l (packs % 16) + (journal.length + 1))
    ⟨addr.toUInt8, data⟩)

section Entered
variable (fits : journal.length < 511) (stored : Stored l s.memory packs journal)
include fits stored

theorem entryBlank : cell l s.memory (packs % 16) (journal.length + 1) = erased := by
  rw [stored.active.entries _ fits, slotErased (Nat.le_refl _)]

theorem enteredMemory : (entered l packs journal data addr s).memory =
    Function.update s.memory (firstWord l (packs % 16) + (journal.length + 1)) ⟨addr.toUInt8, data⟩ :=
  unlockWord rfl (entryBlank fits stored)

theorem enteredStored (legal : addr < 255) :
    Stored l (entered l packs journal data addr s).memory packs (journal ++ [(addr.toUInt8, data)]) := by
  have cells : ∀ page i, i < 512 → cell l (entered l packs journal data addr s).memory page i =
      if page = packs % 16 ∧ i = journal.length + 1 then ⟨addr.toUInt8, data⟩ else cell l s.memory page i := by
    intro page i inside
    rw [enteredMemory fits stored, cellUpdate inside (by omega)]
  have active := stored.active
  have length : (journal ++ [(addr.toUInt8, data)]).length = journal.length + 1 := List.length_append
  refine ⟨⟨?_, fun i inside => ?_, fun entry member => ?_, by omega⟩, fun page inside other i word => ?_⟩
  · rw [cells _ _ (by decide), if_neg fun same => by omega, active.status]
  · rw [cells _ _ (by omega)]
    by_cases here : i = journal.length
    · subst here
      rw [if_pos ⟨rfl, rfl⟩, slotEntry (by omega), List.getElem_concat_length rfl]
    · rw [if_neg fun same => by omega, active.entries i inside]
      unfold slot
      by_cases before : i < journal.length
      · rw [List.getElem?_append_left before]
      · rw [List.getElem?_eq_none (by omega), List.getElem?_eq_none (by omega)]
  · rcases List.mem_append.mp member with earlier | new
    · exact active.keys entry earlier
    · rw [List.mem_singleton] at new
      rw [new]
      exact (addrKey legal).2
  · rw [cells _ _ word, if_neg fun same => other same.1]
    exact stored.others page inside other i word

theorem enteredOrderly :
    Orderly l ⟨.programWord, firstWord l (packs % 16) + (journal.length + 1), s.memory,
      (entered l packs journal data addr s).memory⟩ :=
  wordOrderly (s := { s with nvmcon := .programWord }) _ rfl (entryBlank fits stored)
    ⟨_, Nat.mod_lt _ (by decide), _, by omega, rfl⟩

end Entered

theorem Readable.readsSame (readable : Readable l s.memory packs journal) (legal : addr < 255) (data : UInt16) :
    ((dataEERead l addr s).1 = data ∧ (dataEERead l addr s).2.flags.addrNotFound = false) ↔ Unchanged journal data addr s := by
  rw [readable.read legal, Unchanged]
  cases latest journal addr.toUInt8 <;> simp

/- What a write does once it knows the old value. -/
theorem Readable.writeOpened (readable : Readable l s.memory packs journal) (legal : addr < 255) :
    dataEEWrite l data addr s = if Unchanged journal data addr s then (0, { s with nvmcon := .programWord })
      else if getNextAvailCount l { s with nvmcon := .programWord } = 0 then
        (4, State.mark { s with nvmcon := .programWord } fun f => { f with packSkipped := true })
      else
        let nextLoc := getNextAvailCount l { s with nvmcon := .programWord }
        let tblpag := deePageTbl l (packs % 16)
        let pmOffset := deePageOffset l (packs % 16) + UInt16.ofNat nextLoc
        let t := programEntry data addr tblpag pmOffset { s with nvmcon := .programWord }
        if verifies t data addr tblpag pmOffset then (0, if nextLoc + 2 = deePageSize then (packEE l t).2 else t)
        else (7, t.mark fun f => { f with writeError := true }) := by
  have opened : Readable l ({ s with nvmcon := .programWord } : State).memory packs journal := readable
  have low : ¬ dataEETotalSize ≤ addr := UInt16.not_le.mpr legal
  have active : packs % 16 ≠ numDataEEPages := Nat.ne_of_lt (Nat.mod_lt _ (by decide))
  have same := opened.readsSame legal data
  rw [dataEEWrite, if_neg low]
  simp only [opened.activePage, active, if_false]
  generalize dataEERead l addr { s with nvmcon := .programWord } = read at same
  obtain ⟨old, after⟩ := read
  simp only at same
  simp only [same]
  rfl

theorem Readable.writeSame (readable : Readable l s.memory packs journal) (legal : addr < 255)
    (same : Unchanged journal data addr s) : dataEEWrite l data addr s = (0, { s with nvmcon := .programWord }) := by
  rw [readable.writeOpened legal, if_pos same]

theorem Readable.writeRefused (readable : Readable l s.memory packs journal) (legal : addr < 255)
    (changed : ¬ Unchanged journal data addr s) (full : journal.length = 511) : dataEEWrite l data addr s =
      (4, State.mark { s with nvmcon := .programWord } fun f => { f with packSkipped := true }) := by
  have opened : Readable l ({ s with nvmcon := .programWord } : State).memory packs journal := readable
  have room := opened.nextAvail
  rw [if_pos full] at room
  rw [readable.writeOpened legal, if_neg changed, if_pos room]

theorem Stored.write (stored : Stored l s.memory packs journal) (legal : addr < 255) (fits : journal.length < 511)
    (changed : ¬ Unchanged journal data addr s) :
    dataEEWrite l data addr s = (0, if journal.length = 510 then (packEE l (entered l packs journal data addr s)).2
      else entered l packs journal data addr s) := by
  have opened : Readable l ({ s with nvmcon := .programWord } : State).memory packs journal := stored.readable
  have room := opened.nextAvail
  rw [if_neg (by omega)] at room
  have key : (addr % dataEESize).toUInt8 = addr.toUInt8 := by
    rw [(addrKey legal).1]
    exact UInt8.toUInt8_toUInt16 _
  have program : programEntry data addr (deePageTbl l (packs % 16)) (wordOffset l (packs % 16) (journal.length + 1))
      { s with nvmcon := .programWord } = entered l packs journal data addr s := by
    rw [programEntry, writeWord (by omega), key]
    rfl
  have word : cell l (entered l packs journal data addr s).memory (packs % 16) (journal.length + 1) = ⟨addr.toUInt8, data⟩ := by
    rw [enteredMemory fits stored]
    exact Function.update_self ..
  have verified : verifies (entered l packs journal data addr s) data addr (deePageTbl l (packs % 16))
      (wordOffset l (packs % 16) (journal.length + 1)) = true := by
    unfold verifies
    rw [readLowWord (by omega), readHighWord (by omega), readLowOdd (by omega), word]
    exact decide_eq_true ⟨rfl, (addrKey legal).1.symm, rfl⟩
  have last : 2 * (journal.length + 1) + 2 = deePageSize ↔ journal.length = 510 := by
    rw [show deePageSize = 1024 from rfl]
    omega
  rw [stored.readable.writeOpened legal, if_neg changed, room, if_neg (by omega)]
  have offset : deePageOffset l (packs % 16) + UInt16.ofNat (2 * (journal.length + 1)) =
    wordOffset l (packs % 16) (journal.length + 1) := rfl
  simp only [offset, program, verified, last, if_true]

end Writing

/-! Runs of calls. -/

inductive Call where
  | read (addr : UInt16)
  | write (data addr : UInt16)
  | pack
  deriving DecidableEq, Repr

def call (l : Layout) (s : State) : Call → Nat × State
  | .read addr => let (value, s) := dataEERead l addr s; (value.toNat, s)
  | .write data addr => dataEEWrite l data addr s
  | .pack => packEE l s

def calls (l : Layout) (s : State) (cs : List Call) : State := cs.foldl (fun s c => (call l s c).2) s

def results (l : Layout) : State → List Call → List Nat
  | _, [] => []
  | s, c :: cs => (call l s c).1 :: results l (call l s c).2 cs

/- The EEPROM that is emulated: a value, or none yet, for each address. -/
abbrev Values := UInt16 → Option UInt16

def effect (values : Values) : Call → Values
  | .write data addr => if addr < dataEETotalSize then Function.update values addr (some data) else values
  | .read _ | .pack => values

def Answers (values : Values) : Call → Nat → Prop
  | .read addr, result => result = if addr < dataEETotalSize then ((values addr).getD 0xFFFF).toNat else 0xFFFF
  | .write _ addr, result => result = if addr < dataEETotalSize then 0 else 5
  | .pack, result => result = 0 ∨ result = 1

def Follows : Values → List Call → List Nat → Prop
  | _, [], [] => True
  | values, c :: cs, r :: rs => Answers values c r ∧ Follows (effect values c) cs rs
  | _, _, _ => False

/- How often a page has been erased. -/
def erasures (l : Layout) (page : Nat) (history : List Done) : Nat :=
  history.countP fun d => d.operation = .erasePage ∧ d.target = firstWord l page

/- After so many packs of a device that was blank: page 0 was also erased at its start. -/
def eraseCount (packs page : Nat) : Nat := (packs + 15 - page) / 16 + if page = 0 then 1 else 0

structure Running (l : Layout) (values : Values) (packs : Nat) (s : State) : Prop where
  stored : ∃ journal, Stored l s.memory packs journal ∧ journal.length ≤ 510 ∧
    ∀ addr, addr < dataEETotalSize → latest journal addr.toUInt8 = values addr
  orderly : ∀ d ∈ s.history, Orderly l d
  erased : ∀ page < 16, erasures l page s.history = eraseCount packs page
  expired : s.flags.expiredPage = decide (1584 ≤ packs)

section Runs
variable {l : Layout} {s : State} {values : Values} {packs : Nat}

theorem expiredCount (packs : Nat) : (decide (1584 ≤ packs) || decide (99 ≤ (statusWord (packs + 1)).low)) =
    decide (1584 ≤ packs + 1) := by
  have counted : 99 ≤ (statusWord (packs + 1)).low ↔ 99 ≤ (packs + 1) / 16 % 65536 := by
    rw [UInt16.le_iff_toNat_le]
    simp only [statusWord, UInt16.toNat_ofNat', UInt16.reduceToNat]
  rw [Bool.eq_iff_iff, Bool.or_eq_true, decide_eq_true_eq, decide_eq_true_eq, decide_eq_true_eq, counted]
  omega

theorem eraseNext {page : Nat} (inside : page < 16) (packs : Nat) :
    eraseCount (packs + 1) page = eraseCount packs page + if page = packs % 16 then 1 else 0 := by
  have round : (packs + 1 + 15 - page) / 16 = (packs + 15 - page) / 16 + if page = packs % 16 then 1 else 0 := by
    split <;> omega
  rw [eraseCount, round, eraseCount, Nat.add_right_comm]

theorem firstWordPage {page other : Nat} : firstWord l page = firstWord l other ↔ page = other := by
  unfold firstWord
  omega

theorem erasuresCons (page : Nat) (d : Done) (history : List Done) : erasures l page (d :: history) =
    erasures l page history + if d.operation = .erasePage ∧ d.target = firstWord l page then 1 else 0 := by
  rw [erasures, List.countP_cons]
  simp only [decide_eq_true_eq]
  rfl

theorem erasuresOthers {page : Nat} {others history : List Done} (other : ∀ d ∈ others, d.operation ≠ .erasePage) :
    erasures l page (others ++ history) = erasures l page history := by
  have none : others.countP (fun d => d.operation = .erasePage ∧ d.target = firstWord l page) = 0 :=
    List.countP_eq_zero.mpr fun d member => by
      rw [decide_eq_true_eq]
      exact fun erase => other d member erase.1
  rw [erasures, List.countP_append, none, Nat.zero_add]
  rfl

/- Only the memory, the history and one of the flags count. -/
theorem Running.same {later : State} (running : Running l values packs s) (memory : later.memory = s.memory)
    (history : later.history = s.history) (expired : later.flags.expiredPage = s.flags.expiredPage) :
    Running l values packs later := by
  obtain ⟨journal, stored, fits, holds⟩ := running.stored
  refine ⟨⟨journal, ?_, fits, holds⟩, ?_, ?_, ?_⟩
  · rw [memory]
    exact stored
  · rw [history]
    exact running.orderly
  · rw [history]
    exact running.erased
  · rw [expired]
    exact running.expired

theorem legalKey {addr : UInt16} (legal : addr < dataEETotalSize) : addr < 255 := legal

theorem keyAddr {addr other : UInt16} (legal : addr < 255) (legal' : other < 255) :
    addr.toUInt8 = other.toUInt8 ↔ addr = other := by
  constructor
  · intro same
    have value := congrArg UInt8.toNat same
    rw [UInt16.toNat_toUInt8, UInt16.toNat_toUInt8] at value
    rw [UInt16.lt_iff_toNat_lt] at legal legal'
    simp only [UInt16.reduceToNat] at legal legal'
    exact UInt16.toNat_inj.mp (by omega)
  · exact congrArg UInt16.toUInt8

/- A pack of a page with room or without. -/
theorem PackDone.running {later : State} {journal : List (UInt8 × UInt16)} (done : PackDone l packs journal s later)
    (orderly : ∀ d ∈ s.history, Orderly l d) (erased : ∀ page < 16, erasures l page s.history = eraseCount packs page)
    (expired : s.flags.expiredPage = decide (1584 ≤ packs))
    (holds : ∀ addr, addr < dataEETotalSize → latest journal addr.toUInt8 = values addr) :
    Running l values (packs + 1) later := by
  obtain ⟨rows, status, erase, history, programmed, ⟨statusOrderly, word, -⟩, ⟨eraseOrderly, operation, target⟩, -⟩ :=
    done.history
  refine ⟨⟨_, done.stored, Nat.le_trans (packedLength journal) (by decide), fun addr legal => ?_⟩, ?_, fun page inside => ?_, ?_⟩
  · rw [latestPacked (addrKey (legalKey legal)).2, holds addr legal]
  · rw [history]
    intro d member
    rcases List.mem_cons.mp member with rfl | member
    · exact eraseOrderly
    rcases List.mem_cons.mp member with rfl | member
    · exact statusOrderly
    rcases List.mem_append.mp member with row | before
    · exact (programmed d row).orderly
    · exact orderly d before
  · have rowsOnly : ∀ d ∈ status :: rows, d.operation ≠ .erasePage := by
      intro d member
      rcases List.mem_cons.mp member with rfl | row
      · rw [word]
        decide
      · rw [(programmed d row).operation]
        decide
    rw [history, List.cons_append, erasuresCons, erasuresOthers rowsOnly, erased page inside, eraseNext inside]
    simp only [operation, target, true_and, firstWordPage]
    simp only [eq_comm]
  · rw [done.expiredPage, expired, expiredCount]

theorem Running.write (running : Running l values packs s) (data : UInt16) {addr : UInt16} (legal : addr < dataEETotalSize) :
    (dataEEWrite l data addr s).1 = 0 ∧
      ∃ later, Running l (Function.update values addr (some data)) later (dataEEWrite l data addr s).2 := by
  obtain ⟨journal, stored, fits, holds⟩ := running.stored
  have key := legalKey legal
  by_cases same : Unchanged journal data addr s
  · have kept : Function.update values addr (some data) = values := by
      rw [← same.1, holds addr legal, Function.update_eq_self]
    rw [stored.readable.writeSame key same, kept]
    exact ⟨rfl, packs, running.same rfl rfl rfl⟩
  · have written := stored.write key (by omega) same
    have added : Stored l (entered l packs journal data addr s).memory packs (journal ++ [(addr.toUInt8, data)]) :=
      enteredStored (by omega) stored key
    have now : ∀ other, other < dataEETotalSize → latest (journal ++ [(addr.toUInt8, data)]) other.toUInt8 =
        Function.update values addr (some data) other := by
      intro other legal'
      rw [latestAppend]
      by_cases here : addr = other
      · subst here
        rw [if_pos rfl, Function.update_self]
      · rw [if_neg fun equal => here ((keyAddr key (legalKey legal')).mp equal), holds other legal',
          Function.update_of_ne fun equal => here equal.symm]
    have entry : (entered l packs journal data addr s).history = ⟨.programWord, firstWord l (packs % 16) + (journal.length + 1),
      s.memory, (entered l packs journal data addr s).memory⟩ :: s.history := rfl
    have orderly : ∀ d ∈ (entered l packs journal data addr s).history, Orderly l d := by
      rw [entry]
      exact List.forall_mem_cons.mpr ⟨enteredOrderly (by omega) stored, running.orderly⟩
    have erased : ∀ page < 16, erasures l page (entered l packs journal data addr s).history = eraseCount packs page := by
      intro page inside
      rw [entry, erasuresCons, if_neg fun erasing => (by cases erasing.1), running.erased page inside]
      rfl
    have expired : (entered l packs journal data addr s).flags.expiredPage = decide (1584 ≤ packs) := running.expired
    rw [written]
    refine ⟨rfl, ?_⟩
    by_cases last : journal.length = 510
    · simp only [last, if_true]
      exact ⟨packs + 1, (packEEDone added).1.running orderly erased expired now⟩
    · simp only [last, if_false]
      refine ⟨packs, ⟨_, added, ?_, now⟩, orderly, erased, expired⟩
      rw [List.length_append, List.length_singleton]
      omega

theorem Running.read (running : Running l values packs s) {addr : UInt16} (legal : addr < dataEETotalSize) :
    (dataEERead l addr s).1 = (values addr).getD 0xFFFF ∧ Running l values packs (dataEERead l addr s).2 := by
  obtain ⟨journal, stored, fits, holds⟩ := running.stored
  rw [stored.readable.read (legalKey legal), ← holds addr legal]
  cases latest journal addr.toUInt8 with
  | none => exact ⟨rfl, running.same rfl rfl rfl⟩
  | some value => exact ⟨rfl, running⟩

theorem Running.pack (running : Running l values packs s) :
    (packEE l s).1 = (if packs < 1583 then 0 else 1) ∧ Running l values (packs + 1) (packEE l s).2 := by
  obtain ⟨journal, stored, fits, holds⟩ := running.stored
  obtain ⟨done, code⟩ := packEEDone stored
  refine ⟨?_, done.running running.orderly running.erased running.expired holds⟩
  rw [code, done.expiredPage, running.expired, expiredCount]
  by_cases early : packs < 1583
  · rw [if_pos early, if_neg (by rw [decide_eq_true_eq]; omega)]
  · rw [if_neg early, if_pos (by rw [decide_eq_true_eq]; omega)]

/- One call. -/
theorem Running.call (running : Running l values packs s) (c : Call) :
    Answers values c (call l s c).1 ∧ ∃ later, Running l (effect values c) later (call l s c).2 := by
  cases c with
  | read addr =>
    by_cases legal : addr < dataEETotalSize
    · obtain ⟨value, later⟩ := running.read legal
      refine ⟨?_, packs, later⟩
      rw [Answers, if_pos legal, ← value]
      rfl
    · have refused : dataEERead l addr s = (0xFFFF, s.mark fun f => { f with illegalAddress := true }) :=
        if_pos (UInt16.not_lt.mp legal)
      simp only [DataEE.call, refused, Answers, if_neg legal]
      exact ⟨rfl, packs, running.same rfl rfl rfl⟩
  | write data addr =>
    by_cases legal : addr < dataEETotalSize
    · obtain ⟨code, later⟩ := running.write data legal
      simp only [DataEE.call, Answers, effect, if_pos legal]
      exact ⟨code, later⟩
    · have refused : dataEEWrite l data addr s = (5, s.mark fun f => { f with illegalAddress := true }) :=
        if_pos (UInt16.not_lt.mp legal)
      simp only [DataEE.call, refused, Answers, effect, if_neg legal]
      exact ⟨trivial, packs, running.same rfl rfl rfl⟩
  | pack =>
    obtain ⟨code, later⟩ := running.pack
    refine ⟨?_, packs + 1, later⟩
    have either : (packEE l s).1 = 0 ∨ (packEE l s).1 = 1 := by
      rw [code]
      split
      · exact Or.inl rfl
      · exact Or.inr rfl
    exact either

theorem Running.calls (running : Running l values packs s) (cs : List Call) : Follows values cs (results l s cs) ∧
    ∃ values later, Running l values later (calls l s cs) := by
  induction cs generalizing values packs s with
  | nil => exact ⟨trivial, values, packs, running⟩
  | cons c cs ih =>
    obtain ⟨answer, later, next⟩ := running.call c
    obtain ⟨follows, rest⟩ := ih next
    exact ⟨⟨answer, follows⟩, rest⟩

/- A device whose emulation pages are blank, once `DataEEInit` has returned. -/
def started (l : Layout) (m : ProgramMemory) : State := (dataEEInit l (restart m)).2

theorem startedRunning {m : ProgramMemory} (blank : Empty l m) : Running l (fun _ => none) 0 (started l m) := by
  have blank' : Empty l (restart m).memory := blank
  obtain ⟨stored, flags, status, erase, history, ⟨statusOrderly, word, -⟩, ⟨eraseOrderly, operation, target, -⟩⟩ :=
    startPageStored blank'
  have start : started l m = startPage l (restart m) := by rw [started, initBlank blank']
  rw [start]
  refine ⟨⟨[], stored, Nat.zero_le _, fun _ _ => rfl⟩, ?_, fun page inside => ?_, ?_⟩
  · rw [history]
    exact List.forall_mem_cons.mpr ⟨statusOrderly, List.forall_mem_cons.mpr ⟨eraseOrderly, fun d none => (by cases none)⟩⟩
  · rw [history, erasuresCons, erasuresCons, word, operation, target]
    simp only [firstWordPage, true_and]
    have zero : erasures l page (restart m).history = 0 := rfl
    have count : (0 + 15 - page) / 16 = 0 := by omega
    rw [zero, eraseCount, count]
    simp [eq_comm]
  · rw [flags]
    rfl

end Runs

/-! Main results. -/

/- Every call that has a legal address succeeds, and a read returns what was written to its address last. -/
theorem emulatedEeprom (l : Layout) (m : ProgramMemory) (blank : Empty l m) (cs : List Call) :
    (dataEEInit l (restart m)).1 = 0 ∧ Follows (fun _ => none) cs (results l (started l m) cs) := by
  refine ⟨?_, ((startedRunning blank).calls cs).1⟩
  have blank' : Empty l (restart m).memory := blank
  rw [initBlank blank']

def nowhere : Layout := ⟨0, by decide⟩

theorem emulatedEepromWitness : (dataEEInit nowhere (restart fun _ => erased)).1 = 0 ∧
    Follows (fun _ => none) [.write 7 3, .pack, .read 3]
      (results nowhere (started nowhere fun _ => erased) [.write 7 3, .pack, .read 3]) :=
  emulatedEeprom nowhere _ (fun _ _ _ _ => rfl) _

/- What so many packs leave. -/
structure Worn (l : Layout) (packs : Nat) (s : State) : Prop where
  active : activePage l s = packs % 16
  status : cell l s.memory (packs % 16) 0 = statusWord packs
  erased : ∀ page < 16, erasures l page s.history = eraseCount packs page

theorem Running.worn {l : Layout} {values : Values} {packs : Nat} {s : State} (running : Running l values packs s) :
    Worn l packs s := by
  obtain ⟨journal, stored, -⟩ := running.stored
  exact ⟨stored.readable.activePage, stored.active.status, running.erased⟩

/- The erasures tell how many packs there were: the page erased next is one ahead after another pack. -/
theorem eraseCountInjective {packs other : Nat} (same : ∀ page < 16, eraseCount packs page = eraseCount other page) :
    packs = other := by
  have here := same (packs % 16) (Nat.mod_lt _ (by decide))
  have there := same (other % 16) (Nat.mod_lt _ (by decide))
  unfold eraseCount at here there
  omega

theorem Worn.packs {l : Layout} {packs other : Nat} {s : State} (worn : Worn l packs s) : Worn l other s ↔ other = packs := by
  constructor
  · intro again
    exact eraseCountInjective fun page inside => by rw [← again.erased page inside, ← worn.erased page inside]
  · rintro rfl
    exact worn

/- The pages take turns, and the limit on the count ends nothing: a pack reports it and goes on to the next page
with all values all the same. -/
theorem wearLevelled (l : Layout) (m : ProgramMemory) (blank : Empty l m) (cs : List Call) :
    ∃ packs, (∀ n, Worn l n (calls l (started l m) cs) ↔ n = packs) ∧
      (packEE l (calls l (started l m) cs)).1 = (if packs < 1583 then 0 else 1) ∧
      Worn l (packs + 1) (packEE l (calls l (started l m) cs)).2 ∧
      ∀ addr < dataEETotalSize, (dataEERead l addr (packEE l (calls l (started l m) cs)).2).1 =
        (dataEERead l addr (calls l (started l m) cs)).1 := by
  obtain ⟨-, values, packs, running⟩ := (startedRunning blank).calls cs
  obtain ⟨code, packed⟩ := running.pack
  refine ⟨packs, fun n => running.worn.packs, code, packed.worn, fun addr legal => ?_⟩
  rw [(packed.read legal).1, (running.read legal).1]

theorem Running.packs {l : Layout} {values : Values} {packs : Nat} {s : State} (running : Running l values packs s) (n : Nat) :
    Running l values (packs + n) (DataEE.calls l s (List.replicate n .pack)) := by
  induction n generalizing packs s with
  | zero => exact running
  | succ n ih =>
    have later := ih running.pack.2
    rw [Nat.add_right_comm] at later
    exact later

/- After 1583 packs, the first pack that reports the limit. -/
theorem wearLevelledWitness : Worn nowhere 1583 (calls nowhere (started nowhere fun _ => erased) (List.replicate 1583 .pack)) ∧
    (packEE nowhere (calls nowhere (started nowhere fun _ => erased) (List.replicate 1583 .pack))).1 = 1 ∧
    Worn nowhere 1584 (packEE nowhere (calls nowhere (started nowhere fun _ => erased) (List.replicate 1583 .pack))).2 := by
  obtain ⟨packs, only, code, next, -⟩ := wearLevelled nowhere (fun _ => erased) (fun _ _ _ _ => rfl) (List.replicate 1583 .pack)
  have known := ((startedRunning (l := nowhere) (m := fun _ => erased) fun _ _ _ _ => rfl).packs 1583).worn
  rw [Nat.zero_add] at known
  obtain rfl := (only 1583).mp known
  exact ⟨known, code, next⟩

end OrazioLogger.DataEE
