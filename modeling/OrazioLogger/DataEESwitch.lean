import OrazioLogger.DataEEPack

/-! The packed page takes over: it is verified, gets its status word, and the page before it is erased. -/
namespace OrazioLogger.DataEE
open Journal

/- The latest entries, in the order of their addresses. -/
def packedJournal (journal : List (UInt8 × UInt16)) : List (UInt8 × UInt16) := compact (keysBelow 255) journal

/- Between the status word of the packed page and the erasure of the old one both are current. -/
structure Doubled (l : Layout) (m : ProgramMemory) (packs : Nat) (journal : List (UInt8 × UInt16)) : Prop where
  active : Holds l m (packs % 16) (statusWord packs) journal
  packed : Holds l m ((packs + 1) % 16) (statusWord (packs + 1)) (packedJournal journal)
  others : ∀ page < 16, page ≠ packs % 16 → page ≠ (packs + 1) % 16 → Blank l m page

/- The packed page is not complete. -/
def Unfinished (l : Layout) (m : ProgramMemory) (packs : Nat) (later : ProgramMemory) : Prop :=
  ∃ words : List Instruction, later = overwrite m (firstWord l ((packs + 1) % 16)) words ∧ words.length ≤ 512 ∧
    ∀ word, words[0]? = some word → word = erased

section Content
variable {l : Layout} {m : ProgramMemory} {s : State} {packs : Nat} {journal : List (UInt8 × UInt16)}

theorem keysBelowMember {key : UInt8} : key ∈ keysBelow 255 ↔ key ≠ 0xFF := by
  rw [keysBelow, List.mem_map]
  constructor
  · rintro ⟨n, inside, rfl⟩ same
    have value := congrArg UInt8.toNat same
    rw [List.mem_range] at inside
    rw [UInt8.toNat_ofNat'] at value
    simp only [UInt8.reduceToNat] at value
    omega
  · intro used
    refine ⟨key.toNat, List.mem_range.mpr ?_, UInt8.ofNat_toNat⟩
    have bound := key.toNat_lt
    have other : key.toNat ≠ 255 := fun same => used (UInt8.toNat_inj.mp same)
    omega

theorem packedLength (journal : List (UInt8 × UInt16)) : (packedJournal journal).length ≤ 255 := by
  have entries := compactLength (keysBelow 255) journal
  rwa [keysBelow, List.length_map, List.length_range] at entries

theorem packedKeys {entry : UInt8 × UInt16} (member : entry ∈ packedJournal journal) :
    entry.1 ≠ 0xFF ∧ latest journal entry.1 = some entry.2 := by
  obtain ⟨among, found⟩ := compactMember.mp member
  exact ⟨keysBelowMember.mp among, found⟩

theorem latestPacked {key : UInt8} (used : key ≠ 0xFF) : latest (packedJournal journal) key = latest journal key := by
  rw [packedJournal, latestCompact, if_pos (keysBelowMember.mpr used)]

theorem successorPage (packs : Nat) : nextPage (packs % 16) = (packs + 1) % 16 ∧ (packs + 1) % 16 ≠ packs % 16 := by
  have pages : numDataEEPages = 16 := rfl
  refine ⟨?_, by omega⟩
  unfold nextPage
  by_cases last : packs % 16 + 1 = numDataEEPages
  · rw [if_pos last]
    omega
  · rw [if_neg last]
    omega

/- What is programmed in a blank page, word by word. -/
theorem imageWord {packed pads i : Nat} (blank : Blank l m packed) (few : pads ≤ 64) (inside : i < 511) :
    cell l (overwrite m (firstWord l packed) (image journal 255 ++ List.replicate pads erased)) packed (i + 1) =
      slot (packedJournal journal) i := by
  have length := imageLength journal 255
  rw [cellOverwrite (by omega) (by rw [List.length_append, List.length_replicate]; omega), if_pos rfl,
    blank _ (by omega), image, List.cons_append, List.getElem?_cons_succ]
  by_cases entry : i < (packedJournal journal).length
  · rw [slotEntry entry, List.getElem?_append_left (by rw [List.length_map]; exact entry),
      List.getElem?_map, ← packedJournal, List.getElem?_eq_getElem entry]
    rfl
  · rw [slotErased (Nat.not_lt.mp entry)]
    cases here : ((compact (keysBelow 255) journal).map wordOf ++ List.replicate pads erased)[i]? with
    | none => rfl
    | some word =>
      rw [List.getElem?_append_right (by rw [List.length_map]; exact Nat.not_lt.mp entry)] at here
      exact List.eq_of_mem_replicate (List.mem_of_getElem? here)

/-! Verifying. -/

theorem verifyLoopSame (readable : Readable l s.memory packs journal) {packed : Nat}
    (words : ∀ i < 511, cell l s.memory packed (i + 1) = slot (packedJournal journal) i) (fuel : Nat) {k : Nat}
    (inside : k ≤ (packedJournal journal).length) (enough : (packedJournal journal).length < k + fuel) :
    verifyLoop l (deePageTbl l packed) fuel (wordOffset l packed (k + 1)) s = (true, s) := by
  have length := packedLength journal
  induction fuel generalizing k with
  | zero => omega
  | succ fuel ih =>
    rw [verifyLoop, readHighWord (by omega), readLowOdd (by omega), words k (by omega)]
    by_cases entry : k < (packedJournal journal).length
    · obtain ⟨used, found⟩ := packedKeys (List.getElem_mem entry)
      have legal : ((packedJournal journal)[k]).1.toUInt16 < 255 := by
        rw [UInt16.lt_iff_toNat_lt, UInt8.toNat_toUInt16]
        have bound := ((packedJournal journal)[k]).1.toNat_lt
        have apart : ((packedJournal journal)[k]).1.toNat ≠ 255 := fun same => used (UInt8.toNat_inj.mp same)
        simp only [UInt16.reduceToNat]
        omega
      have read := readable.read legal
      rw [UInt8.toUInt8_toUInt16, found] at read
      have more := ih (k := k + 1) entry (by omega)
      rw [slotEntry entry]
      simp only [used, if_false, read, if_true, wordOffsetNext]
      exact more
    · rw [slotErased (Nat.not_lt.mp entry)]
      rfl

/-! The status word. -/

/- Packing counts a round when it is back at page 0. -/
theorem nextCount (packs : Nat) : (if (packs + 1) % 16 = 0 then (statusWord packs).low + 1 else (statusWord packs).low) =
    (statusWord (packs + 1)).low := by
  apply UInt16.toNat_inj.mp
  simp only [statusWord]
  split
  · rw [UInt16.toNat_add]
    simp only [UInt16.toNat_ofNat', UInt16.reduceToNat]
    omega
  · simp only [UInt16.toNat_ofNat']
    omega

theorem nextStatus (packs : Nat) : (if 99 ≤ (statusWord (packs + 1)).low then (statusWord packs).high &&& 0xEF
    else (statusWord packs).high) = (statusWord (packs + 1)).high := by
  have counted : 99 ≤ (statusWord (packs + 1)).low ↔ 99 ≤ (packs + 1) / 16 % 65536 := by
    rw [UInt16.le_iff_toNat_le]
    simp only [statusWord, UInt16.toNat_ofNat', UInt16.reduceToNat]
  by_cases expired : 99 ≤ (statusWord (packs + 1)).low
  · have limit := counted.mp expired
    rw [if_pos expired]
    have late : ¬ packs + 1 < 1584 := by omega
    simp only [statusWord, late, if_false]
    by_cases fresh : packs < 1584
    · simp only [fresh, if_true]
      decide
    · simp only [fresh, if_false]
      decide
  · rw [if_neg expired]
    have limit : ¬ 99 ≤ (packs + 1) / 16 % 65536 := fun more => expired (counted.mpr more)
    simp only [statusWord]
    by_cases fresh : packs + 1 < 1584
    · rw [if_pos (by omega), if_pos fresh]
    · have late : ¬ packs < 1584 := by omega
      rw [if_neg late, if_neg fresh]

end Content

/-! The switch. -/

/- What a pack leaves, with the operations it took: rows, the status word, the erasure. -/
structure PackDone (l : Layout) (packs : Nat) (journal : List (UInt8 × UInt16)) (s later : State) : Prop where
  stored : Stored l later.memory (packs + 1) (packedJournal journal)
  addrNotFound : later.flags.addrNotFound = s.flags.addrNotFound
  expiredPage : later.flags.expiredPage = (s.flags.expiredPage || decide (99 ≤ (statusWord (packs + 1)).low))
  history : ∃ rows status erase, later.history = erase :: status :: rows ++ s.history ∧
    (∀ d ∈ rows, RowDone l ((packs + 1) % 16) s.memory d) ∧
    (Orderly l status ∧ status.operation = .programWord ∧ Unfinished l s.memory packs status.before) ∧
    (Orderly l erase ∧ erase.operation = .erasePage ∧ erase.target = firstWord l (packs % 16)) ∧
    Doubled l erase.before packs journal

section Switch
variable {l : Layout} {s : State} {packs : Nat} {journal : List (UInt8 × UInt16)}

theorem unexpiredNext (stored : Stored l s.memory packs journal) :
    unexpiredFrom l s (packs % 16) numDataEEPages (nextPage (packs % 16)) = some ((packs + 1) % 16) := by
  obtain ⟨next, other⟩ := successorPage packs
  have blank := stored.others _ (Nat.mod_lt _ (by decide)) other 0 (by decide)
  have fresh : getPageStatus l s ((packs + 1) % 16) .expired ≠ pageExpired := by
    rw [expiredStatus, blank]
    decide
  rw [next, numDataEEPages, unexpiredFrom, if_pos fresh]

/- The flags after the status word, which are those of the pack. -/
def counted (packs : Nat) (s : State) : State :=
  if 99 ≤ (statusWord (packs + 1)).low then s.mark fun f => { f with expiredPage := true } else s

def statusProgrammed (l : Layout) (packs : Nat) (s : State) : State :=
  unlockWrite (latched { counted packs s with nvmcon := .programWord } (firstWord l ((packs + 1) % 16)) (statusWord (packs + 1)))

theorem countedMemory (packs : Nat) (s : State) : (counted packs s).memory = s.memory ∧
    (counted packs s).history = s.history ∧ (counted packs s).flags.addrNotFound = s.flags.addrNotFound ∧
    (counted packs s).flags.expiredPage = (s.flags.expiredPage || decide (99 ≤ (statusWord (packs + 1)).low)) := by
  unfold counted
  split
  · rename_i late
    exact ⟨rfl, rfl, rfl, by simp [late]⟩
  · rename_i early
    exact ⟨rfl, rfl, rfl, by simp [early]⟩

theorem statusProgrammedMemory (blank : cell l s.memory ((packs + 1) % 16) 0 = erased) :
    (statusProgrammed l packs s).memory =
      Function.update s.memory (firstWord l ((packs + 1) % 16)) (statusWord (packs + 1)) := by
  have same := (countedMemory packs s).1
  rw [statusProgrammed, unlockWord rfl]
  · exact congrArg (fun m => Function.update m _ _) same
  · exact (congrFun same _).trans blank

theorem programStatusDone (active : cell l s.memory (packs % 16) 0 = statusWord packs)
    (blank : cell l s.memory ((packs + 1) % 16) 0 = erased) :
    programStatus l (packs % 16) ((packs + 1) % 16) s =
      (if (counted packs s).flags.expiredPage then 1 else 0, erasePage l (packs % 16) (statusProgrammed l packs s)) := by
  have limit : eraseWriteCycleMax - 1 = 99 := by decide
  have written : cell l (statusProgrammed l packs s).memory ((packs + 1) % 16) 0 = statusWord (packs + 1) := by
    rw [statusProgrammedMemory blank]
    exact Function.update_self ..
  unfold programStatus
  simp only [wordOffsetZero, readHighWord (show 0 < 512 by decide), readLowWord (show 0 < 512 by decide), active, nextCount,
    limit, decide_eq_true_eq, nextStatus, writeWordLow (show 0 < 512 by decide)]
  refine (if_neg fun wrong => ?_).trans rfl
  rcases wrong with high | low
  · exact high (congrArg Instruction.high written.symm)
  · exact low (congrArg Instruction.low written.symm)

/-! Both pages are current, and then one. -/

theorem cellUpdate {m : ProgramMemory} {page other i k : Nat} {word : Instruction} (inside : i < 512) (at' : k < 512) :
    cell l (Function.update m (firstWord l page + k) word) other i =
      if other = page ∧ i = k then word else cell l m other i := by
  unfold cell
  by_cases same : other = page ∧ i = k
  · rw [if_pos same, same.1, same.2, Function.update_self]
  · rw [if_neg same, Function.update_of_ne]
    unfold firstWord
    omega

theorem Doubled.oldErased (doubled : Doubled l s.memory packs journal) :
    Stored l (erasePage l (packs % 16) s).memory (packs + 1) (packedJournal journal) := by
  obtain ⟨-, other⟩ := successorPage packs
  have packed := doubled.packed
  refine ⟨⟨?_, fun i inside => ?_, packed.keys, packed.fits⟩, fun page inside elsewhere i word => ?_⟩
  · rw [erasePageCell _ _ _ (by decide), if_neg other, packed.status]
  · rw [erasePageCell _ _ _ (by omega), if_neg other, packed.entries i inside]
  · rw [erasePageCell _ _ _ word]
    split
    · rfl
    · rename_i apart
      exact doubled.others page inside apart elsewhere i word

theorem Doubled.newErased (doubled : Doubled l s.memory packs journal) :
    Stored l (erasePage l ((packs + 1) % 16) s).memory packs journal := by
  obtain ⟨-, other⟩ := successorPage packs
  have active := doubled.active
  refine ⟨⟨?_, fun i inside => ?_, active.keys, active.fits⟩, fun page inside elsewhere i word => ?_⟩
  · rw [erasePageCell _ _ _ (by decide), if_neg other.symm, active.status]
  · rw [erasePageCell _ _ _ (by omega), if_neg other.symm, active.entries i inside]
  · rw [erasePageCell _ _ _ word]
    split
    · rfl
    · rename_i apart
      exact doubled.others page inside elsewhere apart i word

section Filled
variable {later : State} {pads : Nat}

theorem filledFits (journal : List (UInt8 × UInt16)) (few : pads ≤ 64) :
    (image journal 255 ++ List.replicate pads erased).length ≤ 512 := by
  have length := imageLength journal 255
  rw [List.length_append, List.length_replicate]
  omega

theorem filledHead (journal : List (UInt8 × UInt16)) (pads : Nat) :
    ∀ word, (image journal 255 ++ List.replicate pads erased)[0]? = some word → word = erased := by
  intro word here
  rw [image, List.cons_append, List.getElem?_cons_zero] at here
  exact (Option.some.inj here).symm

theorem PageFilled.elsewhere (filled : PageFilled l ((packs + 1) % 16) journal s later pads) {page i : Nat} (inside : i < 512)
    (other : page ≠ (packs + 1) % 16) : cell l later.memory page i = cell l s.memory page i := by
  rw [filled.memory, cellOverwrite inside (filledFits journal filled.pads), if_neg other]

theorem PageFilled.status (filled : PageFilled l ((packs + 1) % 16) journal s later pads) :
    cell l later.memory ((packs + 1) % 16) 0 = erased := by
  rw [filled.memory, cellOverwrite (by decide) (filledFits journal filled.pads), if_pos rfl, image, List.cons_append,
    List.getElem?_cons_zero]
  rfl

theorem PageFilled.words (filled : PageFilled l ((packs + 1) % 16) journal s later pads)
    (stored : Stored l s.memory packs journal) {i : Nat} (inside : i < 511) :
    cell l later.memory ((packs + 1) % 16) (i + 1) = slot (packedJournal journal) i := by
  have blank := stored.others _ (Nat.mod_lt _ (by decide)) (successorPage packs).2
  rw [filled.memory]
  exact imageWord blank filled.pads inside

theorem PageFilled.unfinished (filled : PageFilled l ((packs + 1) % 16) journal s later pads) :
    Unfinished l s.memory packs later.memory :=
  ⟨_, filled.memory, filledFits journal filled.pads, filledHead journal pads⟩

/- The status word completes the page. -/
theorem PageFilled.doubled (filled : PageFilled l ((packs + 1) % 16) journal s later pads)
    (stored : Stored l s.memory packs journal) : Doubled l (statusProgrammed l packs later).memory packs journal := by
  obtain ⟨-, other⟩ := successorPage packs
  have memory := statusProgrammedMemory filled.status
  have active := stored.active
  have start : firstWord l ((packs + 1) % 16) = firstWord l ((packs + 1) % 16) + 0 := rfl
  have kept : ∀ page i, i < 512 → page ≠ (packs + 1) % 16 →
      cell l (statusProgrammed l packs later).memory page i = cell l s.memory page i := by
    intro page i inside apart
    rw [memory, start, cellUpdate inside (by decide), if_neg fun same => apart same.1, filled.elsewhere inside apart]
  refine ⟨⟨?_, fun i inside => ?_, active.keys, active.fits⟩, ⟨?_, fun i inside => ?_, fun _ member => (packedKeys member).1, ?_⟩,
    fun page inside elsewhere apart i word => ?_⟩
  · rw [kept _ _ (by decide) other.symm, active.status]
  · rw [kept _ _ (by omega) other.symm, active.entries i inside]
  · rw [memory]
    exact Function.update_self ..
  · rw [memory, start, cellUpdate (by omega) (by decide), if_neg fun same => Nat.succ_ne_zero i same.2,
      filled.words stored inside]
  · exact Nat.le_trans (packedLength journal) (by decide)
  · rw [kept _ _ word apart]
    exact stored.others page inside elsewhere i word

end Filled

/- The state is not compared with a pair it comes from, which would unfold the call. -/
theorem ofPair {α β : Type} {x : α × β} {a : α} {b : β} (same : x = (a, b)) : x.1 = a ∧ x.2 = b := by
  rw [same]
  exact ⟨rfl, rfl⟩

theorem packEEDone (stored : Stored l s.memory packs journal) :
    PackDone l packs journal s (packEE l s).2 ∧ (packEE l s).1 = if (packEE l s).2.flags.expiredPage then 1 else 0 := by
  obtain ⟨-, other⟩ := successorPage packs
  have found : packs % 16 ≠ numDataEEPages := Nat.ne_of_lt (Nat.mod_lt _ (by decide))
  -- `packBeforePageFull` is the only thing that is noted before the packing
  obtain ⟨noted, same, memory, history, missed, expired⟩ : ∃ noted : State,
      (if getNextAvailCount l s ≠ 0 then s.mark fun f => { f with packBeforePageFull := true } else s) = noted ∧
        noted.memory = s.memory ∧ noted.history = s.history ∧ noted.flags.addrNotFound = s.flags.addrNotFound ∧
        noted.flags.expiredPage = s.flags.expiredPage := by
    split <;> exact ⟨_, rfl, rfl, rfl, rfl, rfl⟩
  have started : Stored l noted.memory packs journal := by rwa [memory]
  obtain ⟨pads, filled⟩ := packPageFilled started.readable other (Nat.mod_lt _ (by decide))
    (started.others _ (Nat.mod_lt _ (by decide)) other)
  generalize packed : packPage l ((packs + 1) % 16) noted = later at filled
  have readable : Readable l later.memory packs journal := by
    rw [filled.memory]
    exact started.readable.overwrite other (filledFits journal filled.pads) (filledHead journal pads)
  have same' := verifyLoopSame readable (fun i inside => filled.words started inside) numberOfInstructionsInPage
    (Nat.zero_le _) (Nat.lt_of_le_of_lt (packedLength journal) (by decide))
  have active : cell l later.memory (packs % 16) 0 = statusWord packs := readable.active.status
  have packEEIs : packEE l s = (if (counted packs later).flags.expiredPage then 1 else 0,
      erasePage l (packs % 16) (statusProgrammed l packs later)) := by
    rw [packEE, stored.readable.activePage]
    simp only [found, if_false, unexpiredNext stored, same, packed]
    rw [wordOffsetZero, wordOffsetNext, same']
    exact (if_pos rfl).trans (programStatusDone active filled.status)
  obtain ⟨countedM, countedH, countedN, countedE⟩ := countedMemory packs later
  have doubled := filled.doubled started
  obtain ⟨rows, appended, each⟩ := filled.history
  obtain ⟨status, statusIs⟩ : ∃ status : Done, status = ⟨.programWord, firstWord l ((packs + 1) % 16), later.memory,
      (statusProgrammed l packs later).memory⟩ := ⟨_, rfl⟩
  have statusDone : (statusProgrammed l packs later).history = status :: (rows ++ s.history) := by
    rw [← history, ← appended, ← countedH, statusIs, ← countedM]
    rfl
  have statusOrderly : Orderly l status := by
    rw [statusIs, ← countedM]
    exact wordOrderly (s := { counted packs later with nvmcon := .programWord }) _ rfl ((congrFun countedM _).trans filled.status)
      ⟨_, Nat.mod_lt _ (by decide), 0, by decide, rfl⟩
  obtain ⟨code, state⟩ := ofPair packEEIs
  rw [code, state]
  refine ⟨⟨doubled.oldErased, ?_, ?_, rows, status, ⟨.erasePage, firstWord l (packs % 16),
    (statusProgrammed l packs later).memory, _⟩, ?_, ?_, ⟨statusOrderly, ?_, ?_⟩,
    ⟨eraseOrderly (Nat.mod_lt _ (by decide)) _, rfl, rfl⟩, doubled⟩, rfl⟩
  · exact countedN.trans ((congrArg Flags.addrNotFound filled.flags).trans missed)
  · exact countedE.trans (by rw [filled.flags, expired])
  · exact (erasePageDone l (packs % 16) _).trans (by rw [statusDone]; rfl)
  · rw [← memory]
    exact each
  · rw [statusIs]
  · rw [statusIs, ← memory]
    exact filled.unfinished

end Switch

end OrazioLogger.DataEE
