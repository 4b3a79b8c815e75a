import Mathlib.Logic.Function.Basic
import Mathlib.Tactic.Common

/-! FlashOperations.s and DEE_Emulation_16-bit.c of the dspic: an EEPROM kept in pages of program memory, and eeprom.c
above it. For the dsPIC33F: one bank, no ECC, rows and single words are programmed. Each function saves TBLPAG and puts
it back, so it is an argument of the table reads and writes here. -/
namespace OrazioLogger.DataEE

/- An instruction in program memory: the byte TBLRDH and TBLWTH reach, and the word of TBLRDL and TBLWTL. -/
structure Instruction where
  high : UInt8
  low : UInt16
  deriving DecidableEq, Repr

abbrev ProgramMemory := Nat → Instruction

def erased : Instruction := ⟨0xFF, 0xFFFF⟩

/- Programming clears bits and sets none. -/
def Instruction.programmed (old latch : Instruction) : Instruction := ⟨old.high &&& latch.high, old.low &&& latch.low⟩

def dataEESize : UInt16 := 255
def dataEEBanks : UInt16 := 1
def dataEETotalSize : UInt16 := dataEEBanks * dataEESize
def numDataEEPages : Nat := 16
def numberOfInstructionsInPage : Nat := 512
def numberOfInstructionsInRow : Nat := 64
def deePageSize : Nat := numberOfInstructionsInPage * 2
def eraseWriteCycleMax : UInt16 := 100
def pageCurrent : UInt8 := 0
def pageNotCurrent : UInt8 := 1
def pageExpired : UInt8 := 0

/- What NVMCON is set to. -/
inductive Operation where
  | erasePage | programRow | programWord
  deriving DecidableEq, Repr

/- `DATA_EE_FLAGS`. -/
structure Flags where
  addrNotFound : Bool
  expiredPage : Bool
  packBeforePageFull : Bool
  packBeforeInit : Bool
  packSkipped : Bool
  illegalAddress : Bool
  pageCorrupt : Bool
  writeError : Bool
  deriving DecidableEq, Repr

def Flags.clear : Flags := ⟨false, false, false, false, false, false, false, false⟩

/- An operation on program memory that has been carried out. -/
structure Done where
  operation : Operation
  target : Nat
  before : ProgramMemory
  after : ProgramMemory

/- `target` is the instruction of the latest table write; `history` lists the operations, the latest first. -/
structure State where
  memory : ProgramMemory
  latches : Nat → Instruction
  target : Nat
  nvmcon : Operation
  flags : Flags
  history : List Done

def State.mark (s : State) (change : Flags → Flags) : State := { s with flags := change s.flags }

@[simp] theorem markFlags (s : State) (change : Flags → Flags) : (s.mark change).flags = change s.flags := rfl

@[simp] theorem markMemory (s : State) (change : Flags → Flags) : (s.mark change).memory = s.memory := rfl

@[simp] theorem markHistory (s : State) (change : Flags → Flags) : (s.mark change).history = s.history := rfl

/- Where the linker puts `emulationPages`. -/
structure Layout where
  emulationPages : Nat
  aligned : emulationPages % 1024 = 0

def deePageTbl (l : Layout) (page : Nat) : Nat := (l.emulationPages + deePageSize * page) / 65536

def deePageOffset (l : Layout) (page : Nat) : UInt16 := UInt16.ofNat (l.emulationPages + deePageSize * page)

/-! FlashOperations.s, and the operations NVMCON starts. -/

/- Two addresses for each instruction; the lowest bit is not looked at. -/
def instructionAt (tblpag : Nat) (offset : UInt16) : Nat := (tblpag * 65536 + offset.toNat) / 2

def readPMHigh (s : State) (tblpag : Nat) (offset : UInt16) : UInt8 := (s.memory (instructionAt tblpag offset)).high

def readPMLow (s : State) (tblpag : Nat) (offset : UInt16) : UInt16 := (s.memory (instructionAt tblpag offset)).low

def setLatch (a : Nat) (change : Instruction → Instruction) (s : State) : State :=
  { s with latches := Function.update s.latches (a % 64) (change (s.latches (a % 64))), target := a }

def writePMHigh (value : UInt8) (tblpag : Nat) (offset : UInt16) : State → State :=
  setLatch (instructionAt tblpag offset) fun latch => { latch with high := value }

def writePMLow (value : UInt16) (tblpag : Nat) (offset : UInt16) : State → State :=
  setLatch (instructionAt tblpag offset) fun latch => { latch with low := value }

/- The page, the row or the word of the latest table write. -/
def operated (s : State) : ProgramMemory := fun a =>
  match s.nvmcon with
  | .erasePage => if a / numberOfInstructionsInPage = s.target / numberOfInstructionsInPage then erased else s.memory a
  | .programRow =>
    if a / numberOfInstructionsInRow = s.target / numberOfInstructionsInRow then (s.memory a).programmed (s.latches (a % 64))
    else s.memory a
  | .programWord => if a = s.target then (s.memory a).programmed (s.latches (a % 64)) else s.memory a

def unlockWrite (s : State) : State :=
  { s with memory := operated s, history := ⟨s.nvmcon, s.target, s.memory, operated s⟩ :: s.history }

/-! Pages and their status. -/

inductive StatusField where
  | available | current | expired
  deriving DecidableEq, Repr

def getPageStatus (l : Layout) (s : State) (page : Nat) (field : StatusField) : UInt8 :=
  let statusByte := readPMHigh s (deePageTbl l page) (deePageOffset l page)
  match field with
  | .available => (statusByte &&& 4) >>> 2
  | .current => (statusByte &&& 8) >>> 3
  | .expired => (statusByte &&& 16) >>> 4

def erasePage (l : Layout) (page : Nat) (s : State) : State :=
  let pmOffset := deePageOffset l page
  unlockWrite (writePMLow pmOffset (deePageTbl l page) pmOffset { s with nvmcon := .erasePage })

/- The first page that is current, or `NUM_DATA_EE_PAGES`. -/
def activePage (l : Layout) (s : State) : Nat :=
  ((List.range numDataEEPages).find? fun page => getPageStatus l s page .current ≠ pageNotCurrent).getD numDataEEPages

/- `do { i+=2; pmOffset+=2; ... } while ((i<1024) && (dataEEval != 0xFF))`. -/
def availLoop (s : State) (tblpag : Nat) : Nat → Nat → UInt16 → Nat
  | 0, i, _ => i
  | left + 1, i, pmOffset =>
    if i + 2 < deePageSize ∧ readPMHigh s tblpag (pmOffset + 2) ≠ 0xFF then availLoop s tblpag left (i + 2) (pmOffset + 2)
    else i + 2

/- 0 if the page is full. -/
def getNextAvailCount (l : Layout) (s : State) : Nat :=
  let currentPage := activePage l s
  let i := availLoop s (deePageTbl l currentPage) numberOfInstructionsInPage 0 (deePageOffset l currentPage)
  if i = deePageSize then 0 else i

/-! Reading. -/

/- From the end of the page backwards; `i` counts down to 0, which is the status word. -/
def readLoop (s : State) (tblpag : Nat) (key : UInt16) : Nat → UInt16 → Nat × UInt16
  | 0, pmOffset => (0, pmOffset)
  | i + 1, pmOffset =>
    if 0 < i ∧ (readPMHigh s tblpag pmOffset).toUInt16 ≠ key then readLoop s tblpag key i (pmOffset - 2)
    else (i, pmOffset - 2)

def dataEERead (l : Layout) (addr : UInt16) (s : State) : UInt16 × State :=
  if dataEETotalSize ≤ addr then (0xFFFF, s.mark fun f => { f with illegalAddress := true })
  else
    let currentPage := activePage l s
    if currentPage = numDataEEPages then (0xFFFF, s.mark fun f => { f with pageCorrupt := true })
    else
      let tblpag := deePageTbl l currentPage
      let (i, pmOffset) := readLoop s tblpag (addr % dataEESize) numberOfInstructionsInPage
        (deePageOffset l (currentPage + 1) - 2)
      if i = 0 then (0xFFFF, s.mark fun f => { f with addrNotFound := true })
      else (readPMLow s tblpag (pmOffset + 2), s)

/-! Packing. -/

def nextPage (page : Nat) : Nat := if page + 1 = numDataEEPages then 0 else page + 1

/- The next unexpired page; `none` when the search is back at the active one. -/
def unexpiredFrom (l : Layout) (s : State) (currentPage : Nat) : Nat → Nat → Option Nat
  | 0, _ => none
  | left + 1, page =>
    if getPageStatus l s page .expired ≠ pageExpired then some page
    else if nextPage page = currentPage then none
    else unexpiredFrom l s currentPage left (nextPage page)

/- The variables of the loops that fill the packed page. -/
structure Packing where
  state : State
  latchAddr : UInt8
  i : Nat
  packedOffset : UInt16

def latchWord (tblpag : Nat) (high : UInt8) (low : UInt16) (x : Packing) : Packing :=
  { x with
    state := writePMHigh high tblpag x.packedOffset (writePMLow low tblpag x.packedOffset x.state)
    i := x.i + 1
    packedOffset := x.packedOffset + 2 }

/- Behind the last address the row is filled up. -/
def padRow (tblpag : Nat) : Nat → Packing → Packing
  | 0, x => x
  | left + 1, x =>
    if x.latchAddr.toUInt16 = dataEESize ∧ x.i < numberOfInstructionsInRow then
      padRow tblpag left (latchWord tblpag 0xFF 0xFFFF x)
    else x

/- An unwritten address is skipped. -/
def packAddress (l : Layout) (tblpag : Nat) (x : Packing) : Packing :=
  let (latchData, s) := dataEERead l x.latchAddr.toUInt16 x.state
  let y := if s.flags.addrNotFound then { x with state := s.mark fun f => { f with addrNotFound := false } }
    else latchWord tblpag x.latchAddr latchData { x with state := s }
  padRow tblpag numberOfInstructionsInRow { y with latchAddr := x.latchAddr + 1 }

def fillRow (l : Layout) (tblpag : Nat) : Nat → Packing → Packing
  | 0, x => x
  | left + 1, x =>
    if x.latchAddr.toUInt16 ≠ dataEESize ∧ x.i < numberOfInstructionsInRow then fillRow l tblpag left (packAddress l tblpag x)
    else x

def programRow (x : Packing) : Packing := { x with state := unlockWrite x.state, i := 0 }

def packRows (l : Layout) (tblpag : Nat) : Nat → Packing → Packing
  | 0, x => x
  | left + 1, x =>
    let y := programRow (fillRow l tblpag dataEESize.toNat x)
    if y.latchAddr.toUInt16 ≠ dataEESize then packRows l tblpag left y else y

/- The word of the status is left erased. -/
def packPage (l : Layout) (packedPage : Nat) (s : State) : State :=
  let tblpag := deePageTbl l packedPage
  let start : Packing :=
    ⟨{ s.mark fun f => { f with addrNotFound := false } with nvmcon := .programRow }, 0, 0, deePageOffset l packedPage⟩
  { (packRows l tblpag dataEESize.toNat (latchWord tblpag 0xFF 0xFFFF start)).state with flags := s.flags }

/- Each word of the packed page against the active one, up to an erased word. -/
def verifyLoop (l : Layout) (tblpag : Nat) : Nat → UInt16 → State → Bool × State
  | 0, _, s => (false, s)
  | left + 1, packedOffset, s =>
    let latchAddr := readPMHigh s tblpag packedOffset
    let latchData := readPMLow s tblpag (packedOffset + 1)
    if latchAddr = 0xFF then (true, s)
    else
      let (data, s) := dataEERead l latchAddr.toUInt16 s
      if data = latchData then verifyLoop l tblpag left (packedOffset + 2) s else (false, s)

/- The status word, with the erase/write count, makes the packed page the active one. -/
def programStatus (l : Layout) (currentPage packedPage : Nat) (s : State) : Nat × State :=
  let latchAddr := readPMHigh s (deePageTbl l currentPage) (deePageOffset l currentPage)
  let latchData := readPMLow s (deePageTbl l currentPage) (deePageOffset l currentPage)
  let latchData := if packedPage = 0 then latchData + 1 else latchData
  let expired := decide (eraseWriteCycleMax - 1 ≤ latchData)
  let s := if expired then s.mark fun f => { f with expiredPage := true } else s
  let latchAddr := if expired then latchAddr &&& 0xEF else latchAddr
  let tblpag := deePageTbl l packedPage
  let packedOffset := deePageOffset l packedPage
  let s := writePMHigh latchAddr tblpag packedOffset { s with nvmcon := .programWord }
  let s := unlockWrite (writePMLow latchData tblpag packedOffset s)
  if latchAddr ≠ readPMHigh s tblpag packedOffset ∨ latchData ≠ readPMLow s tblpag packedOffset then
    (7, s.mark fun f => { f with writeError := true })
  else
    let s := erasePage l currentPage s
    (if s.flags.expiredPage then 1 else 0, s)

def packEE (l : Layout) (s : State) : Nat × State :=
  let currentPage := activePage l s
  if currentPage = numDataEEPages then (3, s.mark fun f => { f with packBeforeInit := true })
  else
    match unexpiredFrom l s currentPage numDataEEPages (nextPage currentPage) with
    | none => (1, s.mark fun f => { f with expiredPage := true })
    | some packedPage =>
      let s := if getNextAvailCount l s ≠ 0 then s.mark fun f => { f with packBeforePageFull := true } else s
      let s := packPage l packedPage s
      let (same, s) := verifyLoop l (deePageTbl l packedPage) numberOfInstructionsInPage (deePageOffset l packedPage + 2) s
      if same then programStatus l currentPage packedPage s else (7, s.mark fun f => { f with writeError := true })

/-! Starting and writing. -/

/- Page 0 as a new page: current, not expired, its count 0. -/
def startPage (l : Layout) (s : State) : State :=
  let s := { erasePage l 0 s with nvmcon := .programWord }
  let statusOffset := deePageOffset l 0
  unlockWrite (writePMHigh 0xF3 (deePageTbl l 0) statusOffset (writePMLow 0 (deePageTbl l 0) statusOffset s))

/- Of two current pages the second one is erased, which the last page and page 0 are in this order. -/
def secondPage (l : Layout) (s : State) : Nat :=
  if getPageStatus l s (numDataEEPages - 1) .current = pageCurrent ∧ getPageStatus l s 0 .current = pageCurrent then 0
  else nextPage (activePage l s)

def dataEEInit (l : Layout) (s : State) : Nat × State :=
  let pages := List.range numDataEEPages
  if pages.all fun page => getPageStatus l s page .expired = pageExpired then
    (1, s.mark fun f => { f with expiredPage := true })
  else
    let pageCnt := (pages.filter fun page => getPageStatus l s page .current = pageCurrent).length
    if pageCnt = 0 then (0, startPage l s)
    else if pageCnt = 1 then (0, s)
    else if pageCnt = 2 then
      let s := erasePage l (secondPage l s) s
      (0, if getNextAvailCount l s = 0 then (packEE l s).2 else s)
    else (6, s.mark fun f => { f with pageCorrupt := true })

def programEntry (data addr : UInt16) (tblpag : Nat) (pmOffset : UInt16) (s : State) : State :=
  unlockWrite (writePMHigh (addr % dataEESize).toUInt8 tblpag pmOffset (writePMLow data tblpag pmOffset s))

/- The word is read back in three bytes. -/
def verifies (s : State) (data addr : UInt16) (tblpag : Nat) (pmOffset : UInt16) : Bool :=
  (readPMLow s tblpag pmOffset).toUInt8 = data.toUInt8 ∧ (readPMHigh s tblpag pmOffset).toUInt16 = addr % dataEESize ∧
    (readPMLow s tblpag (pmOffset + 1) >>> 8).toUInt8 = (data >>> 8).toUInt8

def dataEEWrite (l : Layout) (data addr : UInt16) (s : State) : Nat × State :=
  if dataEETotalSize ≤ addr then (5, s.mark fun f => { f with illegalAddress := true })
  else
    let s := { s with nvmcon := .programWord }
    let currentPage := activePage l s
    if currentPage = numDataEEPages then (6, s.mark fun f => { f with pageCorrupt := true })
    else
      let tblpag := deePageTbl l currentPage
      let (old, after) := dataEERead l addr s
      -- the flag may be set from an earlier read
      if old = data ∧ after.flags.addrNotFound = false then (0, s)
      else
        let nextLoc := getNextAvailCount l s
        if nextLoc = 0 then (4, s.mark fun f => { f with packSkipped := true })
        else
          let pmOffset := deePageOffset l currentPage + UInt16.ofNat nextLoc
          let s := programEntry data addr tblpag pmOffset s
          if verifies s data addr tblpag pmOffset then
            (0, if nextLoc + 2 = deePageSize then (packEE l s).2 else s)
          else (7, s.mark fun f => { f with writeError := true })

/-! eeprom.c. -/

def eepromInit (l : Layout) (s : State) : State := { (dataEEInit l s).2 with flags := .clear }

def eepromReadLoop (l : Layout) : Nat → UInt16 → State → List UInt8 × State
  | 0, _, s => ([], s)
  | left + 1, src, s =>
    let (value, s) := dataEERead l src s
    let (rest, s) := eepromReadLoop l left (src + 1) s
    (value.toUInt8 :: rest, s)

/- The end is a uint16_t, too. -/
def eepromRead (l : Layout) (src size : UInt16) (s : State) : List UInt8 × State :=
  let end' := src + size
  eepromReadLoop l (end'.toNat - src.toNat) src s

def eepromWrite (l : Layout) : UInt16 → List UInt8 → State → State
  | _, [], s => s
  | dest, c :: rest, s => eepromWrite l (dest + 1) rest (dataEEWrite l c.toUInt16 dest s).2

/- After a reset the program memory is what it was. -/
def restart (memory : ProgramMemory) : State := ⟨memory, fun _ => erased, 0, .programWord, .clear, []⟩

end OrazioLogger.DataEE
