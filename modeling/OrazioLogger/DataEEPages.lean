import OrazioLogger.DataEE
import OrazioLogger.Support.Journal
import Mathlib.Tactic.Common

/-! What the emulation pages hold: the active one a journal of the values written, behind its status word, and the
others nothing. -/
namespace OrazioLogger.DataEE
open Journal

/-! Words of a page by their number. -/

def firstWord (l : Layout) (page : Nat) : Nat := l.emulationPages / 2 + 512 * page

def cell (l : Layout) (m : ProgramMemory) (page i : Nat) : Instruction := m (firstWord l page + i)

def wordOffset (l : Layout) (page i : Nat) : UInt16 := deePageOffset l page + UInt16.ofNat (2 * i)

section Words
variable {l : Layout} {s : State} {page i : Nat}

theorem wordOffsetZero (l : Layout) (page : Nat) : deePageOffset l page = wordOffset l page 0 := by
  simp [wordOffset]

theorem wordOffsetNext (l : Layout) (page i : Nat) : wordOffset l page i + 2 = wordOffset l page (i + 1) := by
  apply UInt16.toNat_inj.mp
  simp only [wordOffset, UInt16.toNat_add, UInt16.toNat_ofNat', UInt16.reduceToNat]
  omega

theorem wordOffsetBack (l : Layout) (page i : Nat) : wordOffset l page (i + 1) - 2 = wordOffset l page i := by
  rw [← wordOffsetNext]
  exact UInt16.add_sub_cancel _ _

/- The last word of a page, from the start of the page behind it. -/
theorem lastWordOffset (l : Layout) (page : Nat) : deePageOffset l (page + 1) - 2 = wordOffset l page 511 := by
  have start : deePageOffset l (page + 1) = wordOffset l page (511 + 1) := by
    apply UInt16.toNat_inj.mp
    simp only [wordOffset, deePageOffset, deePageSize, numberOfInstructionsInPage, UInt16.toNat_add, UInt16.toNat_ofNat']
    omega
  rw [start, wordOffsetBack]

theorem instructionAtWord (inside : i < 512) :
    instructionAt (deePageTbl l page) (wordOffset l page i) = firstWord l page + i ∧
      instructionAt (deePageTbl l page) (wordOffset l page i + 1) = firstWord l page + i := by
  have aligned := l.aligned
  simp only [instructionAt, deePageTbl, wordOffset, deePageOffset, deePageSize, numberOfInstructionsInPage, firstWord,
    UInt16.toNat_add, UInt16.toNat_ofNat', UInt16.reduceToNat]
  omega

theorem readHighWord (inside : i < 512) :
    readPMHigh s (deePageTbl l page) (wordOffset l page i) = (cell l s.memory page i).high := by
  rw [readPMHigh, (instructionAtWord inside).1]
  rfl

theorem readLowWord (inside : i < 512) :
    readPMLow s (deePageTbl l page) (wordOffset l page i) = (cell l s.memory page i).low := by
  rw [readPMLow, (instructionAtWord inside).1]
  rfl

/- An odd address reads the same word. -/
theorem readLowOdd (inside : i < 512) :
    readPMLow s (deePageTbl l page) (wordOffset l page i + 1) = (cell l s.memory page i).low := by
  rw [readPMLow, (instructionAtWord inside).2]
  rfl

theorem statusByteRead : readPMHigh s (deePageTbl l page) (deePageOffset l page) = (cell l s.memory page 0).high := by
  rw [wordOffsetZero]
  exact readHighWord (by decide)

end Words

/-! Pages that hold a journal. -/

def slot (journal : List (UInt8 × UInt16)) (i : Nat) : Instruction :=
  match journal[i]? with
  | some entry => ⟨entry.1, entry.2⟩
  | none => erased

structure Holds (l : Layout) (m : ProgramMemory) (page : Nat) (status : Instruction) (journal : List (UInt8 × UInt16)) :
    Prop where
  status : cell l m page 0 = status
  entries : ∀ i < 511, cell l m page (i + 1) = slot journal i
  keys : ∀ entry ∈ journal, entry.1 ≠ 0xFF
  fits : journal.length ≤ 511

def Blank (l : Layout) (m : ProgramMemory) (page : Nat) : Prop := ∀ i < 512, cell l m page i = erased

/- The status word after a number of packs: unavailable and current, and at the limit of the count expired. -/
def statusWord (packs : Nat) : Instruction := ⟨if packs < 1584 then 0xF3 else 0xE3, UInt16.ofNat (packs / 16)⟩

/- Each pack goes to the next page. Of the other pages nothing is said but that they are not current. -/
structure Readable (l : Layout) (m : ProgramMemory) (packs : Nat) (journal : List (UInt8 × UInt16)) : Prop where
  active : Holds l m (packs % 16) (statusWord packs) journal
  others : ∀ page < 16, page ≠ packs % 16 → cell l m page 0 = erased

structure Stored (l : Layout) (m : ProgramMemory) (packs : Nat) (journal : List (UInt8 × UInt16)) : Prop where
  active : Holds l m (packs % 16) (statusWord packs) journal
  others : ∀ page < 16, page ≠ packs % 16 → Blank l m page

section Pages
variable {l : Layout} {m : ProgramMemory} {s : State} {page packs : Nat} {status : Instruction}
  {journal : List (UInt8 × UInt16)}

theorem Stored.readable (stored : Stored l m packs journal) : Readable l m packs journal :=
  ⟨stored.active, fun page inside other => stored.others page inside other 0 (by decide)⟩

theorem slotEntry {i : Nat} (inside : i < journal.length) : slot journal i = ⟨(journal[i]).1, (journal[i]).2⟩ := by
  unfold slot
  rw [List.getElem?_eq_getElem inside]

theorem slotErased {i : Nat} (behind : journal.length ≤ i) : slot journal i = erased := by
  unfold slot
  rw [List.getElem?_eq_none behind]

/- An entry is told from an erased word by its key. -/
theorem Holds.keyUsed (holds : Holds l m page status journal) {i : Nat} (inside : i < journal.length) :
    (slot journal i).high ≠ 0xFF := by
  rw [slotEntry inside]
  exact holds.keys _ (List.getElem_mem inside)

theorem statusBits (packs : Nat) : ((statusWord packs).high &&& 8) >>> 3 ≠ pageNotCurrent ∧
    ((statusWord packs).high &&& 8) >>> 3 = pageCurrent := by
  unfold statusWord
  by_cases fresh : packs < 1584
  · simp only [fresh, if_true]
    decide
  · simp only [fresh, if_false]
    decide

theorem currentStatus (l : Layout) (s : State) (page : Nat) :
    getPageStatus l s page .current = ((cell l s.memory page 0).high &&& 8) >>> 3 := by
  rw [getPageStatus, statusByteRead]

theorem expiredStatus (l : Layout) (s : State) (page : Nat) :
    getPageStatus l s page .expired = ((cell l s.memory page 0).high &&& 16) >>> 4 := by
  rw [getPageStatus, statusByteRead]

theorem activePageFirst (inside : page < 16) (current : getPageStatus l s page .current ≠ pageNotCurrent)
    (before : ∀ other < page, getPageStatus l s other .current = pageNotCurrent) : activePage l s = page := by
  have found : (List.range numDataEEPages).find? (fun page => decide (getPageStatus l s page .current ≠ pageNotCurrent)) =
      some page := by
    rw [List.find?_range_eq_some]
    refine ⟨decide_eq_true current, List.mem_range.mpr inside, fun other low => ?_⟩
    simp [before other low]
  rw [activePage, found]
  rfl

theorem Readable.activePage (readable : Readable l s.memory packs journal) : activePage l s = packs % 16 := by
  refine activePageFirst (Nat.mod_lt _ (by decide)) ?_ fun other low => ?_
  · rw [currentStatus, readable.active.status]
    exact (statusBits packs).1
  · rw [currentStatus, readable.others other (Nat.lt_trans low (Nat.mod_lt _ (by decide))) (Nat.ne_of_lt low)]
    decide

/-! The room that is left. -/

theorem availLoopHolds (holds : Holds l s.memory page status journal) (left k : Nat) (behind : k ≤ journal.length)
    (rest : k + left = 512) : availLoop s (deePageTbl l page) left (2 * k) (wordOffset l page k) =
      if journal.length = 511 then 1024 else 2 * (journal.length + 1) := by
  have fits := holds.fits
  induction left generalizing k with
  | zero => omega
  | succ left ih =>
    rw [availLoop, wordOffsetNext]
    by_cases more : k < journal.length
    · have word : (cell l s.memory page (k + 1)).high ≠ 0xFF := by
        rw [holds.entries k (by omega)]
        exact holds.keyUsed more
      rw [if_pos ⟨by simp only [deePageSize, numberOfInstructionsInPage]; omega, by rwa [readHighWord (by omega)]⟩]
      exact ih (k + 1) more (by omega)
    · have all : k = journal.length := by omega
      subst all
      by_cases full : journal.length = 511
      · rw [if_neg fun room => by simp only [deePageSize, numberOfInstructionsInPage] at room; omega, if_pos full, full]
      · have word : readPMHigh s (deePageTbl l page) (wordOffset l page (journal.length + 1)) = 0xFF := by
          rw [readHighWord (by omega), holds.entries _ (by omega), slotErased (Nat.le_refl _)]
          rfl
        rw [if_neg fun used => used.2 word, if_neg full]
        rfl

theorem Readable.nextAvail (readable : Readable l s.memory packs journal) :
    getNextAvailCount l s = if journal.length = 511 then 0 else 2 * (journal.length + 1) := by
  have scanned := availLoopHolds readable.active 512 0 (Nat.zero_le _) rfl
  have fits := readable.active.fits
  rw [getNextAvailCount, readable.activePage, wordOffsetZero]
  rw [Nat.mul_zero] at scanned
  simp only [numberOfInstructionsInPage, scanned]
  by_cases full : journal.length = 511
  · rw [if_pos full, if_pos full]
    rfl
  · rw [if_neg full, if_neg full]
    refine if_neg fun last => ?_
    simp only [deePageSize, numberOfInstructionsInPage] at last
    omega

/-! Reading. -/

/- The last of the first `n` words behind the status with this key, or 0. -/
def lastWord (word : Nat → Instruction) (key : UInt8) : Nat → Nat
  | 0 => 0
  | n + 1 => if (word (n + 1)).high = key then n + 1 else lastWord word key n

theorem lastWordBound (word : Nat → Instruction) (key : UInt8) (n : Nat) : lastWord word key n ≤ n := by
  induction n with
  | zero => exact Nat.le_refl _
  | succ n ih =>
    unfold lastWord
    split
    · exact Nat.le_refl _
    · exact Nat.le_succ_of_le ih

theorem readLoopWord (l : Layout) (s : State) (page : Nat) (key : UInt8) {n : Nat} (inside : n < 512) :
    readLoop s (deePageTbl l page) key.toUInt16 (n + 1) (wordOffset l page n) =
      (lastWord (cell l s.memory page) key n, wordOffset l page (lastWord (cell l s.memory page) key n) - 2) := by
  induction n with
  | zero => rw [readLoop, if_neg fun more => Nat.lt_irrefl 0 more.1]; rfl
  | succ n ih =>
    rw [readLoop, readHighWord inside, wordOffsetBack, lastWord]
    by_cases same : (cell l s.memory page (n + 1)).high = key
    · rw [if_neg fun more => more.2 (congrArg UInt8.toUInt16 same), if_pos same, wordOffsetBack]
    · have other : (cell l s.memory page (n + 1)).high.toUInt16 ≠ key.toUInt16 := fun equal =>
        same (UInt8.toUInt16_inj.mp equal)
      rw [if_pos ⟨Nat.succ_pos n, other⟩, if_neg same]
      exact ih (by omega)

/- The word that is found is that of the latest entry. -/
theorem lastWordLatest (holds : Holds l m page status journal) {key : UInt8} (used : key ≠ 0xFF) {n : Nat} (inside : n ≤ 511) :
    latest (journal.take n) key = if lastWord (cell l m page) key n = 0 then none
      else some (cell l m page (lastWord (cell l m page) key n)).low := by
  induction n with
  | zero => rw [List.take_zero, lastWord, if_pos rfl]; rfl
  | succ n ih =>
    have before := ih (by omega)
    have word := holds.entries n (by omega)
    rw [lastWord]
    by_cases more : n < journal.length
    · rw [List.take_succ_eq_append_getElem more, latestAppend, word, slotEntry more]
      by_cases same : journal[n].1 = key
      · simp [same, word, slotEntry more]
      · simpa [same] using before
    · have erasedWord : (cell l m page (n + 1)).high ≠ key := by
        rw [word, slotErased (by omega)]
        exact fun same => used same.symm
      have all : journal.take (n + 1) = journal.take n := by
        rw [List.take_of_length_le (by omega), List.take_of_length_le (by omega)]
      rw [all, if_neg erasedWord, before]

theorem addrKey {addr : UInt16} (legal : addr < 255) : addr % dataEESize = addr.toUInt8.toUInt16 ∧ addr.toUInt8 ≠ 0xFF := by
  have small : addr.toNat < 255 := legal
  constructor
  · apply UInt16.toNat_inj.mp
    rw [UInt16.toNat_mod]
    simp only [dataEESize, UInt8.toNat_toUInt16, UInt16.toNat_toUInt8, UInt16.reduceToNat]
    omega
  · intro same
    have value := congrArg UInt8.toNat same
    rw [UInt16.toNat_toUInt8] at value
    simp only [UInt8.reduceToNat] at value
    omega

theorem Readable.read (readable : Readable l s.memory packs journal) {addr : UInt16} (legal : addr < 255) :
    dataEERead l addr s = match latest journal addr.toUInt8 with
      | some value => (value, s)
      | none => (0xFFFF, s.mark fun f => { f with addrNotFound := true }) := by
  obtain ⟨key, used⟩ := addrKey legal
  have holds := readable.active
  have fits := holds.fits
  have inside : packs % 16 < 16 := Nat.mod_lt _ (by decide)
  have scanned := readLoopWord l s (packs % 16) addr.toUInt8 (show 511 < 512 by decide)
  have bound := lastWordBound (cell l s.memory (packs % 16)) addr.toUInt8 511
  have found := lastWordLatest holds used (Nat.le_refl 511)
  rw [List.take_of_length_le fits] at found
  have low : ¬ dataEETotalSize ≤ addr := UInt16.not_le.mpr legal
  have active : ¬ packs % 16 = numDataEEPages := Nat.ne_of_lt inside
  rw [dataEERead, if_neg low, readable.activePage]
  dsimp only
  rw [if_neg active, key, lastWordOffset]
  simp only [numberOfInstructionsInPage, scanned, found]
  generalize lastWord (cell l s.memory (packs % 16)) addr.toUInt8 511 = place at bound
  cases place with
  | zero => rfl
  | succ place =>
    simp only [Nat.succ_ne_zero, if_false, wordOffsetBack, wordOffsetNext]
    rw [readLowWord (by omega)]

end Pages

end OrazioLogger.DataEE
