import OrazioLogger.DataEEPages

/-! Packing: the latest entries of the active page go to the next one row by row, then its status word, and the old page
is erased. -/
namespace OrazioLogger.DataEE
open Journal

/-! Blocks of words in program memory. -/

def overwrite (m : ProgramMemory) (start : Nat) (words : List Instruction) : ProgramMemory := fun a =>
  if a < start then m a else (words[a - start]?).getD (m a)

section Blocks
variable {l : Layout} {m : ProgramMemory} {page packed i : Nat} {words : List Instruction}

theorem overwriteNothing (m : ProgramMemory) (start : Nat) : overwrite m start [] = m := by
  funext a
  unfold overwrite
  split <;> rfl

theorem firstWordAligned (l : Layout) (page : Nat) : firstWord l page % 512 = 0 := by
  have aligned := l.aligned
  unfold firstWord
  omega

theorem cellOverwrite (inside : i < 512) (fits : words.length ≤ 512) :
    cell l (overwrite m (firstWord l packed) words) page i =
      if page = packed then (words[i]?).getD (cell l m page i) else cell l m page i := by
  unfold cell overwrite
  by_cases same : page = packed
  · subst same
    rw [if_neg (Nat.not_lt.mpr (Nat.le_add_right _ _)), if_pos rfl, Nat.add_sub_cancel_left]
  · rw [if_neg same]
    by_cases before : page < packed
    · exact if_pos (by unfold firstWord; omega)
    · rw [if_neg (by unfold firstWord; omega), List.getElem?_eq_none (by unfold firstWord; omega)]
      rfl

/- Nothing is current but the active page, as long as the status word of the block is left erased. -/
theorem Readable.overwrite {packs : Nat} {journal : List (UInt8 × UInt16)} (readable : Readable l m packs journal)
    (other : packed ≠ packs % 16) (fits : words.length ≤ 512) (head : ∀ word, words[0]? = some word → word = erased) :
    Readable l (overwrite m (firstWord l packed) words) packs journal := by
  have kept : ∀ i < 512, cell l (DataEE.overwrite m (firstWord l packed) words) (packs % 16) i = cell l m (packs % 16) i :=
    fun i inside => by rw [cellOverwrite inside fits, if_neg fun same => other same.symm]
  refine ⟨⟨?_, fun i inside => ?_, readable.active.keys, readable.active.fits⟩, fun page inside elsewhere => ?_⟩
  · rw [kept 0 (by decide), readable.active.status]
  · rw [kept (i + 1) (by omega), readable.active.entries i inside]
  · have status := readable.others page inside elsewhere
    rw [cellOverwrite (by decide) fits]
    split
    · cases here : words[0]? with
      | none => exact status
      | some word => exact head word here
    · exact status

end Blocks

/-! What operations on program memory are made of. -/

def InPages (l : Layout) (a : Nat) : Prop := ∃ page < 16, ∃ i < 512, a = firstWord l page + i

/- Programming only changes words that are erased, and nothing but the emulation pages is changed. -/
structure Orderly (l : Layout) (d : Done) : Prop where
  inside : ∀ a, d.after a ≠ d.before a → InPages l a
  fresh : d.operation ≠ .erasePage → ∀ a, d.after a ≠ d.before a → d.before a = erased

def latched (s : State) (a : Nat) (word : Instruction) : State :=
  { s with latches := Function.update s.latches (a % 64) word, target := a }

section Writes
variable {l : Layout} {s : State} {page i : Nat}

theorem writeWord (inside : i < 512) (high : UInt8) (low : UInt16) (s : State) :
    writePMHigh high (deePageTbl l page) (wordOffset l page i)
      (writePMLow low (deePageTbl l page) (wordOffset l page i) s) = latched s (firstWord l page + i) ⟨high, low⟩ := by
  simp only [writePMHigh, writePMLow, setLatch, (instructionAtWord inside).1, latched, Function.update_self,
    Function.update_idem]

theorem writeWordLow (inside : i < 512) (high : UInt8) (low : UInt16) (s : State) :
    writePMLow low (deePageTbl l page) (wordOffset l page i)
      (writePMHigh high (deePageTbl l page) (wordOffset l page i) s) = latched s (firstWord l page + i) ⟨high, low⟩ := by
  simp only [writePMHigh, writePMLow, setLatch, (instructionAtWord inside).1, latched, Function.update_self,
    Function.update_idem]

@[simp] theorem programmedErased (latch : Instruction) : erased.programmed latch = latch := by
  have high : (0xFF : UInt8) &&& latch.high = latch.high := by
    apply UInt8.toBitVec_inj.mp
    exact BitVec.allOnes_and
  have low : (0xFFFF : UInt16) &&& latch.low = latch.low := by
    apply UInt16.toBitVec_inj.mp
    exact BitVec.allOnes_and
  simp only [Instruction.programmed, erased, high, low]

theorem operatedRow (operation : s.nvmcon = .programRow) (a : Nat) : operated s a =
    if a / 64 = s.target / 64 then (s.memory a).programmed (s.latches (a % 64)) else s.memory a := by
  unfold operated
  rw [operation]
  rfl

/- One erased word is programmed. -/
theorem unlockWord {a : Nat} {word : Instruction} (operation : s.nvmcon = .programWord) (blank : s.memory a = erased) :
    (unlockWrite (latched s a word)).memory = Function.update s.memory a word := by
  funext other
  simp only [unlockWrite, operated, latched, operation]
  by_cases same : other = a
  · subst same
    rw [if_pos rfl, blank, programmedErased, Function.update_self, Function.update_self]
  · rw [if_neg same, Function.update_of_ne same]

theorem wordOrderly {a : Nat} (word : Instruction) (operation : s.nvmcon = .programWord) (blank : s.memory a = erased)
    (pages : InPages l a) : Orderly l ⟨s.nvmcon, a, s.memory, (unlockWrite (latched s a word)).memory⟩ := by
  have elsewhere : ∀ other, (unlockWrite (latched s a word)).memory other ≠ s.memory other → other = a := by
    intro other changed
    by_contra apart
    exact changed (by rw [unlockWord operation blank, Function.update_of_ne apart])
  exact ⟨fun other changed => elsewhere other changed ▸ pages, fun _ other changed => elsewhere other changed ▸ blank⟩

theorem eraseTarget (l : Layout) (page : Nat) : instructionAt (deePageTbl l page) (deePageOffset l page) = firstWord l page := by
  rw [wordOffsetZero]
  exact (instructionAtWord (by decide)).1

theorem erasePageMemory (l : Layout) (page : Nat) (s : State) : (erasePage l page s).memory = fun a =>
    if firstWord l page ≤ a ∧ a < firstWord l page + 512 then erased else s.memory a := by
  have aligned := firstWordAligned l page
  funext a
  simp only [erasePage, unlockWrite, operated, writePMLow, setLatch, eraseTarget, numberOfInstructionsInPage]
  congr 1
  apply propext
  omega

theorem erasePageCell (l : Layout) (page : Nat) (s : State) {other : Nat} (inside : i < 512) :
    cell l (erasePage l page s).memory other i = if other = page then erased else cell l s.memory other i := by
  rw [erasePageMemory]
  unfold cell firstWord
  dsimp only
  congr 1
  apply propext
  omega

theorem erasePageDone (l : Layout) (page : Nat) (s : State) : (erasePage l page s).history =
    ⟨.erasePage, firstWord l page, s.memory, (erasePage l page s).memory⟩ :: s.history := by
  rw [← eraseTarget l page]
  rfl

theorem eraseOrderly {l : Layout} {page : Nat} (page16 : page < 16) (s : State) :
    Orderly l ⟨.erasePage, firstWord l page, s.memory, (erasePage l page s).memory⟩ := by
  refine ⟨fun a changed => ?_, fun other => absurd rfl other⟩
  by_contra outside
  refine changed ?_
  simp only [erasePageMemory]
  refine if_neg fun here => outside ⟨page, page16, a - firstWord l page, ?_, ?_⟩ <;> omega

end Writes

/-! Filling the packed page. -/

/- A row that is programmed: what is in the packed page before it starts with an erased status word. -/
structure RowDone (l : Layout) (packed : Nat) (m : ProgramMemory) (d : Done) : Prop where
  orderly : Orderly l d
  operation : d.operation = .programRow
  before : ∃ words : List Instruction, d.before = overwrite m (firstWord l packed) words ∧ words.length ≤ 512 ∧
    ∀ word, words[0]? = some word → word = erased

/- `words` have been latched since the packing of `s` started, and the first `rows` rows of them programmed. -/
structure Packed (l : Layout) (packed : Nat) (s : State) (words : List Instruction) (rows : Nat) (x : Packing) : Prop where
  memory : x.state.memory = overwrite s.memory (firstWord l packed) (words.take (64 * rows))
  offset : x.packedOffset = wordOffset l packed words.length
  count : x.i + 64 * rows = words.length
  room : x.i ≤ 64
  head : ∀ word, words[0]? = some word → word = erased
  latches : ∀ j (inside : j < words.length), 64 * rows ≤ j → x.state.latches ((firstWord l packed + j) % 64) = words[j]
  target : words ≠ [] → x.state.target = firstWord l packed + (words.length - 1)
  operation : x.state.nvmcon = .programRow
  flags : x.state.flags = s.flags
  history : ∃ done, x.state.history = done ++ s.history ∧ ∀ d ∈ done, RowDone l packed s.memory d

section Filling
variable {l : Layout} {s : State} {packed rows : Nat} {words : List Instruction} {x : Packing}

theorem Packed.wordAdded (done : Packed l packed s words rows x) (high : UInt8) (low : UInt16) (room : x.i < 64)
    (fits : words.length < 512) (head : words = [] → (⟨high, low⟩ : Instruction) = erased) :
    Packed l packed s (words ++ [⟨high, low⟩]) rows (latchWord (deePageTbl l packed) high low x) := by
  have count := done.count
  have written : (latchWord (deePageTbl l packed) high low x).state =
      latched x.state (firstWord l packed + words.length) ⟨high, low⟩ := by
    rw [latchWord, done.offset]
    exact writeWord fits high low x.state
  refine ⟨?_, ?_, ?_, room, ?_, fun j inside behind => ?_, fun _ => ?_, ?_, ?_, ?_⟩
  · rw [written, List.take_append_of_le_length (by omega)]
    exact done.memory
  · rw [latchWord, done.offset, wordOffsetNext, List.length_append]
    rfl
  · rw [latchWord, List.length_append, List.length_singleton]
    dsimp only
    omega
  · intro word here
    cases words with
    | nil =>
      rw [List.nil_append, List.getElem?_cons_zero] at here
      cases here
      exact head rfl
    | cons first rest => exact done.head word here
  · rw [List.length_append, List.length_singleton] at inside
    rw [written]
    simp only [latched]
    by_cases last : j = words.length
    · subst last
      rw [Function.update_self, List.getElem_concat_length rfl]
    · rw [Function.update_of_ne (by omega), done.latches j (by omega) behind, List.getElem_append_left (by omega)]
  · rw [written, List.length_append]
    rfl
  · rw [written]
    exact done.operation
  · rw [written]
    exact done.flags
  · rw [written]
    exact done.history

/-! A row is programmed when it is full. -/

theorem Packed.region (done : Packed l packed s words rows x) (full : x.i = 64) (a : Nat) :
    a / 64 = x.state.target / 64 ↔
      firstWord l packed + 64 * rows ≤ a ∧ a < firstWord l packed + 64 * (rows + 1) := by
  have count := done.count
  have aligned := firstWordAligned l packed
  have target := done.target fun none => by
    rw [none, List.length_nil] at count
    omega
  rw [target]
  omega

theorem Packed.rowErased (done : Packed l packed s words rows x) (full : x.i = 64) (fits : words.length ≤ 512)
    (blank : Blank l s.memory packed) {a : Nat} (low : firstWord l packed + 64 * rows ≤ a)
    (high : a < firstWord l packed + 64 * (rows + 1)) : x.state.memory a = erased := by
  have count := done.count
  rw [done.memory, overwrite, if_neg (by omega), List.getElem?_eq_none (by rw [List.length_take]; omega)]
  have word := blank (a - firstWord l packed) (by omega)
  unfold cell at word
  rwa [Nat.add_sub_cancel' (by omega)] at word

theorem Packed.rowMemory (done : Packed l packed s words rows x) (full : x.i = 64) (fits : words.length ≤ 512)
    (blank : Blank l s.memory packed) :
    operated x.state = overwrite s.memory (firstWord l packed) (words.take (64 * (rows + 1))) := by
  have count := done.count
  funext a
  rw [operatedRow done.operation]
  by_cases here : firstWord l packed + 64 * rows ≤ a ∧ a < firstWord l packed + 64 * (rows + 1)
  · have latch := done.latches (a - firstWord l packed) (by omega) (by omega)
    rw [Nat.add_sub_cancel' (by omega)] at latch
    rw [if_pos ((done.region full a).mpr here), done.rowErased full fits blank here.1 here.2, programmedErased, latch,
      overwrite, if_neg (by omega), List.getElem?_take_of_lt (by omega), List.getElem?_eq_getElem (by omega)]
    rfl
  · rw [if_neg fun same => here ((done.region full a).mp same), done.memory]
    unfold overwrite
    by_cases low : a < firstWord l packed
    · rw [if_pos low, if_pos low]
    · rw [if_neg low, if_neg low]
      by_cases early : a < firstWord l packed + 64 * rows
      · rw [List.getElem?_take_of_lt (by omega), List.getElem?_take_of_lt (by omega)]
      · rw [List.getElem?_eq_none (by rw [List.length_take]; omega),
          List.getElem?_eq_none (by rw [List.length_take]; omega)]

theorem Packed.rowDone (done : Packed l packed s words rows x) (full : x.i = 64) (page : packed < 16)
    (fits : words.length ≤ 512) (blank : Blank l s.memory packed) :
    RowDone l packed s.memory ⟨x.state.nvmcon, x.state.target, x.state.memory, operated x.state⟩ := by
  have count := done.count
  refine ⟨⟨fun a changed => ?_, fun _ a changed => ?_⟩, done.operation, _, done.memory, ?_, fun word here => ?_⟩
  · by_contra outside
    refine changed ((operatedRow done.operation a).trans (if_neg fun same => outside ⟨packed, page, ?_⟩))
    have here := (done.region full a).mp same
    exact ⟨a - firstWord l packed, by omega, by omega⟩
  · by_contra used
    refine changed ((operatedRow done.operation a).trans (if_neg fun same => used ?_))
    have here := (done.region full a).mp same
    exact done.rowErased full fits blank here.1 here.2
  · rw [List.length_take]
    omega
  · refine done.head word ?_
    rw [List.getElem?_take] at here
    split at here
    · exact here
    · cases here

theorem Packed.rowAdded (done : Packed l packed s words rows x) (full : x.i = 64) (page : packed < 16)
    (fits : words.length ≤ 512) (blank : Blank l s.memory packed) :
    Packed l packed s words (rows + 1) (programRow x) := by
  have count := done.count
  obtain ⟨rowsDone, history, each⟩ := done.history
  refine ⟨done.rowMemory full fits blank, done.offset, ?_, Nat.zero_le _, done.head, fun j inside behind => ?_, done.target,
    done.operation, done.flags, _ :: rowsDone, ?_, List.forall_mem_cons.mpr ⟨done.rowDone full page fits blank, each⟩⟩
  · simp only [programRow]
    omega
  · exact absurd inside (by omega)
  · simp only [programRow, unlockWrite, history, List.cons_append]

theorem padRowUnused {fuel : Nat} {tblpag : Nat} (used : x.latchAddr ≠ 255) : padRow tblpag fuel x = x := by
  cases fuel with
  | zero => rfl
  | succ fuel => exact if_neg fun last => used (UInt8.toUInt16_inj.mp last.1)

theorem Packed.rowPadded (fuel : Nat) (done : Packed l packed s words rows x) (last : x.latchAddr = 255)
    (enough : 64 - x.i ≤ fuel) (fits : words.length + (64 - x.i) ≤ 512) (some : words ≠ []) :
    ∃ pads, pads ≤ 64 - x.i ∧
      Packed l packed s (words ++ List.replicate pads erased) rows (padRow (deePageTbl l packed) fuel x) ∧
      (padRow (deePageTbl l packed) fuel x).i = 64 ∧ (padRow (deePageTbl l packed) fuel x).latchAddr = 255 := by
  have room := done.room
  induction fuel generalizing words x with
  | zero =>
    refine ⟨0, Nat.zero_le _, ?_, ?_, last⟩
    · rw [List.replicate_zero, List.append_nil]
      exact done
    · simp only [padRow]
      omega
  | succ fuel ih =>
    rw [padRow]
    by_cases more : x.i < 64
    · have one := done.wordAdded 0xFF 0xFFFF more (by omega) fun none => absurd none some
      have short : (latchWord (deePageTbl l packed) 0xFF 0xFFFF x).i = x.i + 1 := rfl
      have longer : (words ++ [(⟨0xFF, 0xFFFF⟩ : Instruction)]).length = words.length + 1 := List.length_append
      obtain ⟨pads, few, padded, filled⟩ := ih one last (by omega) (by omega)
        (List.append_ne_nil_of_left_ne_nil some _) one.room
      rw [if_pos ⟨by rw [last]; rfl, more⟩]
      refine ⟨pads + 1, by omega, ?_, filled⟩
      rw [List.append_assoc] at padded
      exact padded
    · rw [if_neg fun room => more room.2]
      refine ⟨0, Nat.zero_le _, ?_, by omega, last⟩
      rw [List.replicate_zero, List.append_nil]
      exact done

end Filling

/-! The entries, address by address. -/

def keysBelow (n : Nat) : List UInt8 := (List.range n).map UInt8.ofNat

def wordOf (entry : UInt8 × UInt16) : Instruction := ⟨entry.1, entry.2⟩

/- The packed page up to an address. -/
def image (journal : List (UInt8 × UInt16)) (n : Nat) : List Instruction :=
  erased :: (compact (keysBelow n) journal).map wordOf

/- Where the loops stand between two addresses. -/
def Filled (l : Layout) (packed : Nat) (s : State) (journal : List (UInt8 × UInt16)) (x : Packing) : Prop :=
  ∃ rows pads, Packed l packed s (image journal x.latchAddr.toNat ++ List.replicate pads erased) rows x ∧
    (x.latchAddr ≠ 255 → pads = 0) ∧ (x.latchAddr = 255 → x.i = 64) ∧ pads ≤ 64

section Addresses
variable {l : Layout} {s : State} {packed packs : Nat} {journal : List (UInt8 × UInt16)} {x : Packing}

theorem imageLength (journal : List (UInt8 × UInt16)) (n : Nat) : (image journal n).length ≤ n + 1 := by
  have entries := compactLength (keysBelow n) journal
  rw [keysBelow, List.length_map, List.length_range] at entries
  rw [image, List.length_cons, List.length_map]
  exact Nat.succ_le_succ entries

theorem imageNext (journal : List (UInt8 × UInt16)) (key : UInt8) : image journal (key.toNat + 1) =
    image journal key.toNat ++ (latest journal key).toList.map fun value => ⟨key, value⟩ := by
  have keys : keysBelow (key.toNat + 1) = keysBelow key.toNat ++ [key] := by
    rw [keysBelow, List.range_succ, List.map_append, List.map_singleton, UInt8.ofNat_toNat]
    rfl
  rw [image, keys, compactAppend, List.map_append, image, List.cons_append]
  congr 2
  cases found : latest journal key <;> simp [compact, found, wordOf]

theorem nextAddr (more : x.latchAddr ≠ 255) : (x.latchAddr + 1).toNat = x.latchAddr.toNat + 1 := by
  have bound := x.latchAddr.toNat_lt
  have other : x.latchAddr.toNat ≠ 255 := fun same => more (UInt8.toNat_inj.mp same)
  rw [UInt8.toNat_add]
  simp only [UInt8.reduceToNat]
  omega

/- Going on to the next address fills the row up behind the last one. -/
theorem Filled.advanced {rows : Nat} {words : List Instruction} (done : Packed l packed s words rows x)
    (same : words = image journal (x.latchAddr.toNat + 1)) (more : x.latchAddr ≠ 255) :
    Filled l packed s journal (padRow (deePageTbl l packed) 64 { x with latchAddr := x.latchAddr + 1 }) ∧
      (padRow (deePageTbl l packed) 64 { x with latchAddr := x.latchAddr + 1 }).latchAddr = x.latchAddr + 1 := by
  subst same
  have moved : Packed l packed s (image journal (x.latchAddr.toNat + 1)) rows { x with latchAddr := x.latchAddr + 1 } :=
    ⟨done.memory, done.offset, done.count, done.room, done.head, done.latches, done.target, done.operation, done.flags,
      done.history⟩
  have length := imageLength journal (x.latchAddr.toNat + 1)
  have bound := x.latchAddr.toNat_lt
  have room := done.room
  by_cases last : x.latchAddr + 1 = 255
  · obtain ⟨pads, few, padded, full, addr⟩ := moved.rowPadded 64 last (Nat.sub_le _ _)
      (by dsimp only; omega) (List.cons_ne_nil _ _)
    refine ⟨⟨rows, pads, ?_, fun other => absurd addr other, fun _ => full, by omega⟩, addr.trans last.symm⟩
    rw [addr, ← last, nextAddr more]
    exact padded
  · rw [padRowUnused last]
    refine ⟨⟨rows, 0, ?_, fun _ => rfl, fun addr => absurd addr last, Nat.zero_le _⟩, rfl⟩
    rw [List.replicate_zero, List.append_nil]
    dsimp only
    rw [nextAddr more]
    exact moved

theorem packAddressFilled (readable : Readable l s.memory packs journal) (other : packed ≠ packs % 16)
    (quiet : s.flags.addrNotFound = false) (filled : Filled l packed s journal x) (more : x.latchAddr ≠ 255)
    (room : x.i < 64) : Filled l packed s journal (packAddress l (deePageTbl l packed) x) ∧
      (packAddress l (deePageTbl l packed) x).latchAddr = x.latchAddr + 1 := by
  obtain ⟨rows, pads, done, none, -, -⟩ := filled
  rw [none more, List.replicate_zero, List.append_nil] at done
  have bound := x.latchAddr.toNat_lt
  have length := imageLength journal x.latchAddr.toNat
  have legal : x.latchAddr.toUInt16 < 255 := by
    rw [UInt16.lt_iff_toNat_lt, UInt8.toNat_toUInt16]
    have apart : x.latchAddr.toNat ≠ 255 := fun same => more (UInt8.toNat_inj.mp same)
    simp only [UInt16.reduceToNat]
    omega
  have head : ∀ word, ((image journal x.latchAddr.toNat).take (64 * rows))[0]? = some word → word = erased := by
    intro word here
    rw [List.getElem?_take] at here
    split at here
    · exact done.head word here
    · cases here
  have seen : Readable l x.state.memory packs journal := by
    rw [done.memory]
    exact readable.overwrite other (by rw [List.length_take]; omega) head
  have flags : x.state.flags.addrNotFound = false := by
    rw [done.flags]
    exact quiet
  have read := seen.read legal
  rw [UInt8.toUInt8_toUInt16] at read
  have next := imageNext journal x.latchAddr
  unfold packAddress
  cases found : latest journal x.latchAddr with
  | none =>
    simp only [found] at read next
    have same : (x.state.mark fun f => { f with addrNotFound := true }).mark (fun f => { f with addrNotFound := false }) =
        x.state := by
      have unmarked : { x.state.flags with addrNotFound := false } = x.state.flags := by rw [← flags]
      simp only [State.mark, unmarked]
    simp only [read, markFlags, same, if_true]
    refine Filled.advanced done ?_ more
    rw [next]
    exact (List.append_nil _).symm
  | some value =>
    simp only [found] at read next
    have added := done.wordAdded x.latchAddr value room (by omega) fun none => absurd none (List.cons_ne_nil _ _)
    simp only [read, flags, Bool.false_eq_true, if_false]
    refine Filled.advanced added ?_ more
    change _ = image journal (x.latchAddr.toNat + 1)
    rw [next]
    rfl

theorem fillRowFilled (readable : Readable l s.memory packs journal) (other : packed ≠ packs % 16)
    (quiet : s.flags.addrNotFound = false) (fuel : Nat) (filled : Filled l packed s journal x)
    (enough : 255 - x.latchAddr.toNat ≤ fuel) :
    Filled l packed s journal (fillRow l (deePageTbl l packed) fuel x) ∧ (fillRow l (deePageTbl l packed) fuel x).i = 64 ∧
      x.latchAddr.toNat ≤ (fillRow l (deePageTbl l packed) fuel x).latchAddr.toNat ∧
      (x.latchAddr ≠ 255 → x.i < 64 → x.latchAddr.toNat < (fillRow l (deePageTbl l packed) fuel x).latchAddr.toNat) := by
  have bound := x.latchAddr.toNat_lt
  induction fuel generalizing x with
  | zero =>
    have last : x.latchAddr = 255 := UInt8.toNat_inj.mp (by simp only [UInt8.reduceToNat]; omega)
    obtain ⟨rows, pads, done, none, full, few⟩ := filled
    exact ⟨⟨rows, pads, done, none, full, few⟩, full last, Nat.le_refl _, fun more => absurd last more⟩
  | succ fuel ih =>
    rw [fillRow]
    by_cases more : x.latchAddr ≠ 255 ∧ x.i < 64
    · obtain ⟨advanced, addr⟩ := packAddressFilled readable other quiet filled more.1 more.2
      have next := nextAddr more.1
      obtain ⟨done, full, later, -⟩ := ih advanced (by rw [addr]; omega) (packAddress l _ x).latchAddr.toNat_lt
      rw [addr, next] at later
      rw [if_pos ⟨fun last => more.1 (UInt8.toUInt16_inj.mp last), more.2⟩]
      exact ⟨done, full, by omega, fun _ _ => by omega⟩
    · rw [if_neg fun on => more ⟨fun last => on.1 (congrArg UInt8.toUInt16 last), on.2⟩]
      refine ⟨filled, ?_, Nat.le_refl _, fun on room => absurd ⟨on, room⟩ more⟩
      obtain ⟨rows, pads, done, none, full, few⟩ := filled
      by_cases last : x.latchAddr = 255
      · exact full last
      · have room := done.room
        have stop : ¬ x.i < 64 := fun room => more ⟨last, room⟩
        omega

/- All rows are programmed, and the last one is filled up with erased words. -/
theorem packRowsFilled (readable : Readable l s.memory packs journal) (other : packed ≠ packs % 16) (page : packed < 16)
    (blank : Blank l s.memory packed) (quiet : s.flags.addrNotFound = false) (fuel : Nat)
    (filled : Filled l packed s journal x) (more : x.latchAddr ≠ 255) (room : x.i < 64)
    (enough : 255 - x.latchAddr.toNat ≤ fuel) :
    ∃ rows pads, pads ≤ 64 ∧ (image journal 255).length + pads = 64 * rows ∧
      Packed l packed s (image journal 255 ++ List.replicate pads erased) rows
        (packRows l (deePageTbl l packed) fuel x) := by
  have bound := x.latchAddr.toNat_lt
  have low : x.latchAddr.toNat ≠ 255 := fun same => more (UInt8.toNat_inj.mp same)
  induction fuel generalizing x with
  | zero => omega
  | succ fuel ih =>
    obtain ⟨done, full, -, later⟩ := fillRowFilled readable other quiet dataEESize.toNat filled
      (by rw [show dataEESize.toNat = 255 from rfl]; omega)
    have further := later more room
    rw [packRows]
    generalize fillRow l (deePageTbl l packed) dataEESize.toNat x = y at done full further ⊢
    obtain ⟨rows, pads, words, none, -, few⟩ := done
    have length := imageLength journal y.latchAddr.toNat
    have top := y.latchAddr.toNat_lt
    have programmed := words.rowAdded full page (by rw [List.length_append, List.length_replicate]; omega) blank
    have count := words.count
    rw [List.length_append, List.length_replicate] at count
    by_cases last : y.latchAddr = 255
    · have value : y.latchAddr.toNat = 255 := by rw [last]; rfl
      rw [if_neg fun on => on (congrArg UInt8.toUInt16 last)]
      rw [value] at programmed count
      exact ⟨rows + 1, pads, few, by omega, programmed⟩
    · have nothing := none last
      subst nothing
      have on : (programRow y).latchAddr.toUInt16 ≠ dataEESize := fun same => last (UInt8.toUInt16_inj.mp same)
      rw [if_pos on]
      have apart : y.latchAddr.toNat ≠ 255 := fun same => last (UInt8.toNat_inj.mp same)
      refine ih (x := programRow y) ⟨rows + 1, 0, programmed, fun _ => rfl, fun same => absurd same last, Nat.zero_le _⟩ last
        (Nat.zero_lt_succ 63) ?_ top apart
      change 255 - y.latchAddr.toNat ≤ fuel
      omega

/- What has been done when the packed page is filled: all of it but the status word. -/
structure PageFilled (l : Layout) (packed : Nat) (journal : List (UInt8 × UInt16)) (s later : State) (pads : Nat) : Prop where
  memory : later.memory = overwrite s.memory (firstWord l packed) (image journal 255 ++ List.replicate pads erased)
  pads : pads ≤ 64
  flags : later.flags = s.flags
  history : ∃ rows, later.history = rows ++ s.history ∧ ∀ d ∈ rows, RowDone l packed s.memory d

theorem packPageFilled (readable : Readable l s.memory packs journal) (other : packed ≠ packs % 16) (page : packed < 16)
    (blank : Blank l s.memory packed) : ∃ pads, PageFilled l packed journal s (packPage l packed s) pads := by
  unfold packPage
  generalize began : { s.mark fun f => { f with addrNotFound := false } with nvmcon := Operation.programRow } = quiet
  have memory : quiet.memory = s.memory := by rw [← began]; rfl
  have history : quiet.history = s.history := by rw [← began]; rfl
  have flag : quiet.flags.addrNotFound = false := by rw [← began]; rfl
  have operation : quiet.nvmcon = .programRow := by rw [← began]
  rw [← memory] at readable blank
  have start : Packed l packed quiet [] 0 ⟨quiet, 0, 0, deePageOffset l packed⟩ :=
    ⟨(overwriteNothing _ _).symm, wordOffsetZero l packed, rfl, Nat.zero_le _, fun _ none => (by cases none),
      fun _ inside => absurd inside (Nat.not_lt_zero _), fun some => absurd rfl some, operation, rfl, [], rfl,
      fun _ none => (by cases none)⟩
  have head := start.wordAdded 0xFF 0xFFFF (Nat.zero_lt_succ 63) (by decide) fun _ => rfl
  have zero : (0 : UInt8) ≠ 255 := by decide
  have filled : Filled l packed quiet journal
      (latchWord (deePageTbl l packed) 0xFF 0xFFFF ⟨quiet, 0, 0, deePageOffset l packed⟩) :=
    ⟨0, 0, head, fun _ => rfl, fun last => absurd last zero, Nat.zero_le _⟩
  obtain ⟨rows, pads, few, count, done⟩ := packRowsFilled readable other page blank flag dataEESize.toNat
    filled zero (show (0 : Nat) + 1 < 64 by decide) (show 255 - (0 : UInt8).toNat ≤ dataEESize.toNat by decide)
  obtain ⟨rowsDone, appended, each⟩ := done.history
  refine ⟨pads, ?_, few, rfl, rowsDone, ?_, ?_⟩
  · rw [← memory]
    refine done.memory.trans ?_
    rw [List.take_of_length_le (Nat.le_of_eq (by rw [List.length_append, List.length_replicate, count]))]
  · rw [← history]
    exact appended
  · rw [← memory]
    exact each

end Addresses

end OrazioLogger.DataEE
