import OrazioLogger.VEntry
import Mathlib.Algebra.Order.BigOperators.Group.List
import Mathlib.Algebra.Order.Group.Nat

/-! save_config and load_config of orazio_shell_commands.c: what is saved of the variables, and what a saved file sets. -/
namespace OrazioLogger.OrazioShell
open Logger (Text)
open TextScan

/- The files by their paths. -/
structure Disk where
  content : Text → Option Text
  writable : Text → Bool

def cannotOpen (path : Text) : Text := "cannot open file [".toList ++ path ++ "]\n".toList

def savedVars : List (Fin numVariables) := (List.finRange numVariables).filter fun i => (entry i).inConfig

def varLine (o : Outside) (vars : Store) (i : Fin numVariables) : Text :=
  (entry i).name ++ ' ' :: (VEntryWrite o vars i ++ ['\n'])

def configBuffer (o : Outside) (vars : Store) : Text := savedVars.flatMap (varLine o vars)

structure Saved where
  returned : Int
  response : Text
  disk : Disk

/- None is a write past the buffer. -/
def saveConfigFn (o : Outside) (disk : Disk) (vars : Store) (path : Text) : Option Saved :=
  if disk.writable path = true then
    if (configBuffer o vars).length < 10240 then
      some ⟨0, [], { disk with content := Function.update disk.content path (some (configBuffer o vars)) }⟩
    else none
  else some ⟨-1, cannotOpen path, disk⟩

structure Loaded where
  returned : Int
  response : Text
  printed : Text
  vars : Store
  file : Stream

def unknownVar (name : Text) : Text := "set: unknown variable [".toList ++ name ++ "]\n".toList

def pairPrinted (name value : Text) : Text := '[' :: (name ++ "]=[".toList ++ value ++ "]\n".toList)

/- None is a read of a buffer in which nothing was stored, a word that does not fit its buffer, or too little fuel. -/
def loadLoop (o : Outside) : Nat → Stream → Store → Text → Text → Option Loaded
  | 0, _, _, _, _ => none
  | fuel + 1, file, vars, r, printed =>
    if file.eof = true then some ⟨0, r, printed, vars, file⟩
    else
      match scanPair file with
      | (some name, some value, rest) =>
        if name.length < 1024 ∧ value.length < 1024 then
          match findVar name with
          | none => some ⟨-1, r ++ unknownVar name, printed ++ pairPrinted name value, vars, rest⟩
          | some i =>
            loadLoop o fuel rest (VEntryRead o vars i value).2
              (r ++ (name ++ ' ' :: (VEntryWrite o (VEntryRead o vars i value).2 i ++ ['\n'])))
              (printed ++ (pairPrinted name value ++ VEntryReadPrinted i ++
                VEntryWritePrinted o (VEntryRead o vars i value).2 i))
        else none
      | _ => none

def loadConfigFn (o : Outside) (disk : Disk) (fuel : Nat) (vars : Store) (path : Text) : Option Loaded :=
  match disk.content path with
  | none => some ⟨-1, cannotOpen path, [], vars, ⟨[], false⟩⟩
  | some text => loadLoop o fuel ⟨text, false⟩ vars [] []

/-! One line. -/

theorem savedVar {i : Fin numVariables} (among : i ∈ savedVars) : (entry i).inConfig = true := (List.mem_filter.mp among).2

theorem savedScalar {i : Fin numVariables} (among : i ∈ savedVars) :
    (entry i).type ≠ .packet ∧ (entry i).type ≠ .string := by
  have inside := savedVar among
  have named := inside
  rw [VEntry.inConfig, Bool.and_eq_true, decide_eq_true_eq] at named
  exact ⟨named.1, variableEntriesTabled.scalars _ (entryIn i) inside⟩

def nameWord (i : Fin numVariables) : Word where
  text := (entry i).name
  inhabited := (variableEntriesTabled.words _ (entryIn i)).1
  solid := fun _ => solidAll (variableEntriesTabled.words _ (entryIn i)).2.1

theorem varLineWords (o : Outside) (vars : Store) {i : Fin numVariables} (among : i ∈ savedVars) :
    ∃ value : Word, value.text = VEntryWrite o vars i ∧ value.text.length ≤ 46 ∧ varLine o vars i = pairLine (nameWord i) value := by
  obtain ⟨value, text, short⟩ := formatWord (savedScalar among) (vars i)
  have same : value.text = VEntryWrite o vars i := by rw [VEntryWrite, if_neg (savedScalar among).1, text]
  refine ⟨value, same, short, ?_⟩
  rw [varLine, pairLine, same]
  rfl

theorem varLineLength (o : Outside) (vars : Store) {i : Fin numVariables} (among : i ∈ savedVars) :
    (varLine o vars i).length ≤ (entry i).name.length + 48 := by
  obtain ⟨value, text, short, _⟩ := varLineWords o vars among
  rw [text] at short
  rw [varLine, List.length_append, List.length_cons, List.length_append, List.length_singleton]
  omega

theorem configBufferFits (o : Outside) (vars : Store) : (configBuffer o vars).length < 10240 := by
  have lines : (configBuffer o vars).length ≤ (savedVars.map fun i => (entry i).name.length + 48).sum := by
    rw [configBuffer, List.length_flatMap]
    exact List.sum_le_sum fun i among => varLineLength o vars among
  have rows : savedVars.map entry = variableEntries.filter VEntry.inConfig := by
    have all : (List.finRange numVariables).map entry = variableEntries := List.map_get_finRange variableEntries
    rw [← all, List.filter_map]
    rfl
  have table := variableEntriesTabled.fits
  rw [← rows, List.map_map] at table
  exact Nat.lt_of_le_of_lt lines table

/- The file goes on with a name, or ends. -/
theorem linesHead (o : Outside) (vars : Store) (is : List (Fin numVariables)) :
    ∀ c ∈ (is.flatMap (varLine o vars)).head?, isspace c = false := by
  cases is with
  | nil => intro c inside; exact absurd inside (by simp)
  | cons i is =>
    rw [List.flatMap_cons, varLine, List.append_assoc]
    exact (nameWord i).head _

def loadVar (o : Outside) (saved vars : Store) (i : Fin numVariables) : Store := (VEntryRead o vars i (VEntryWrite o saved i)).2

/- What is printed for a line of the file, read only entries included. -/
def linePrinted (o : Outside) (saved : Store) (i : Fin numVariables) : Text :=
  pairPrinted (entry i).name (VEntryWrite o saved i) ++ VEntryReadPrinted i

theorem loadLoopLine (o : Outside) (fuel : Nat) {file rest : Stream} {name value : Text} {i : Fin numVariables} (vars : Store)
    (r printed : Text) (more : file.eof = false) (read : scanPair file = (some name, some value, rest))
    (sized : name.length < 1024 ∧ value.length < 1024) (found : findVar name = some i) :
    loadLoop o (fuel + 1) file vars r printed = loadLoop o fuel rest (VEntryRead o vars i value).2
      (r ++ (name ++ ' ' :: (VEntryWrite o (VEntryRead o vars i value).2 i ++ ['\n'])))
      (printed ++ (pairPrinted name value ++ VEntryReadPrinted i ++
        VEntryWritePrinted o (VEntryRead o vars i value).2 i)) := by
  rw [loadLoop, if_neg (by rw [more]; exact Bool.false_ne_true), read]
  dsimp only
  rw [if_pos sized, found]

theorem loadStep (o : Outside) (saved vars : Store) (fuel : Nat) {i : Fin numVariables} (among : i ∈ savedVars)
    (is : List (Fin numVariables)) (r printed : Text) :
    loadLoop o (fuel + 1) ⟨(i :: is).flatMap (varLine o saved), false⟩ vars r printed =
      loadLoop o fuel ⟨is.flatMap (varLine o saved), is.isEmpty⟩ (loadVar o saved vars i)
        (r ++ varLine o (loadVar o saved vars i) i) (printed ++ linePrinted o saved i) := by
  obtain ⟨value, text, short, shape⟩ := varLineWords o saved among
  have sized : (nameWord i).text.length < 1024 ∧ value.text.length < 1024 :=
    ⟨(variableEntriesTabled.words _ (entryIn i)).2.2, Nat.lt_of_le_of_lt short (by decide)⟩
  have ended : (is.flatMap (varLine o saved)).isEmpty = is.isEmpty := by
    cases is with
    | nil => rfl
    | cons j is => simp [varLine]
  have read : scanPair ⟨(i :: is).flatMap (varLine o saved), false⟩ =
      (some (nameWord i).text, some value.text, ⟨is.flatMap (varLine o saved), is.isEmpty⟩) := by
    rw [List.flatMap_cons, shape, scanPairLine _ _ (linesHead o saved is), ended]
  have silent : VEntryWritePrinted o (loadVar o saved vars i) i = [] := if_neg (savedScalar among).1
  rw [loadLoopLine o fuel vars r printed rfl read sized (findVarOwn i), text]
  change loadLoop o fuel _ (loadVar o saved vars i) _ (printed ++ (linePrinted o saved i ++
    VEntryWritePrinted o (loadVar o saved vars i) i)) = _
  rw [silent, List.append_nil]
  rfl

/-! The whole file. -/

def loadVars (o : Outside) (saved vars : Store) (is : List (Fin numVariables)) : Store := is.foldl (loadVar o saved) vars

/- What one line sets: its own variable, and only if that is writable. -/
theorem loadVarReadOnly (o : Outside) (saved vars : Store) {i j : Fin numVariables} (kept : i ≠ j ∨ (entry j).access = .read) :
    loadVar o saved vars i j = vars j := by
  rw [loadVar, VEntryRead]
  cases access : (entry i).access with
  | read => rfl
  | readWrite =>
    have other : j ≠ i := by
      rintro rfl
      rcases kept with kept | kept
      · exact kept rfl
      · rw [access] at kept
        cases kept
    dsimp only
    cases scan o.scanFloat (entry i).type (VEntryWrite o saved i) with
    | none => rfl
    | some v => exact Function.update_of_ne other v vars

theorem loadVarWritable (o : Outside) (saved vars : Store) {i : Fin numVariables} (among : i ∈ savedVars)
    (writable : (entry i).access = .readWrite) (integer : (entry i).type.integer = true) :
    loadVar o saved vars i i = saved i := by
  have narrow := variableEntriesTabled.narrow _ (entryIn i) (savedVar among) writable integer
  have text : VEntryWrite o saved i = format (entry i).type (saved i) := if_neg (savedScalar among).1
  rw [loadVar, VEntryRead, writable]
  dsimp only
  rw [text, scanFormat o.scanFloat narrow]
  exact Function.update_self i (saved i) vars

theorem loadVarsKeep (o : Outside) (saved : Store) {j : Fin numVariables} {is : List (Fin numVariables)} :
    ∀ vars, (∀ i ∈ is, i ≠ j ∨ (entry j).access = .read) → loadVars o saved vars is j = vars j := by
  induction is with
  | nil => intro vars _; rfl
  | cons i is ih =>
    intro vars kept
    rw [loadVars, List.foldl_cons]
    exact (ih _ fun k inside => kept k (List.mem_cons_of_mem i inside)).trans
      (loadVarReadOnly o saved vars (kept i List.mem_cons_self))

theorem loadVarsRestore (o : Outside) (saved : Store) {j : Fin numVariables} (saved_ : j ∈ savedVars)
    (writable : (entry j).access = .readWrite) (integer : (entry j).type.integer = true)
    {is : List (Fin numVariables)} : ∀ vars, j ∈ is ∨ vars j = saved j → loadVars o saved vars is j = saved j := by
  induction is with
  | nil =>
    rintro vars (inside | already)
    · exact absurd inside List.not_mem_nil
    · exact already
  | cons i is ih =>
    intro vars either
    rw [loadVars, List.foldl_cons]
    refine ih (loadVar o saved vars i) ?_
    by_cases here : i = j
    · rw [here]
      exact Or.inr (loadVarWritable o saved vars saved_ writable integer)
    · rcases either with inside | already
      · exact Or.inl ((List.mem_cons.mp inside).resolve_left (Ne.symm here))
      · exact Or.inr ((loadVarReadOnly o saved vars (Or.inl here)).trans already)

theorem varLineSame (o : Outside) {s t : Store} {i : Fin numVariables} (among : i ∈ savedVars) (same : s i = t i) :
    varLine o s i = varLine o t i := by
  rw [varLine, varLine, VEntryWrite, VEntryWrite, if_neg (savedScalar among).1, if_neg (savedScalar among).1, same]

theorem loadRun (o : Outside) (saved : Store) {is : List (Fin numVariables)} (among : ∀ i ∈ is, i ∈ savedVars) (once : is.Nodup) :
    ∀ (fuel : Nat) (vars : Store) (r printed : Text), is.length < fuel →
      loadLoop o fuel ⟨is.flatMap (varLine o saved), is.isEmpty⟩ vars r printed =
        some ⟨0, r ++ is.flatMap (varLine o (loadVars o saved vars is)), printed ++ is.flatMap (linePrinted o saved),
          loadVars o saved vars is, ⟨[], true⟩⟩ := by
  induction is with
  | nil =>
    intro fuel vars r printed enough
    cases fuel with
    | zero => exact absurd enough (Nat.lt_irrefl 0)
    | succ fuel =>
      rw [List.flatMap_nil, List.flatMap_nil, List.flatMap_nil, List.append_nil, List.append_nil]
      rfl
  | cons i is ih =>
    intro fuel vars r printed enough
    cases fuel with
    | zero => exact absurd enough (Nat.not_lt_zero _)
    | succ fuel =>
      obtain ⟨fresh, once⟩ := List.nodup_cons.mp once
      have final : loadVars o saved (loadVar o saved vars i) is i = loadVar o saved vars i i :=
        loadVarsKeep o saved (loadVar o saved vars i) fun j inside => Or.inl fun same => fresh (same ▸ inside)
      have rest := ih (fun j inside => among j (List.mem_cons_of_mem i inside)) once fuel (loadVar o saved vars i)
        (r ++ varLine o (loadVar o saved vars i) i) (printed ++ linePrinted o saved i) (Nat.lt_of_succ_lt_succ enough)
      rw [List.isEmpty_cons, loadStep o saved vars fuel (among i List.mem_cons_self), rest, List.append_assoc,
        List.append_assoc, varLineSame o (among i List.mem_cons_self) final.symm]
      rfl

/-! What the two commands promise: the file sets what it saved and nothing else. -/

structure LoadsBack (saved now later : Store) : Prop where
  restored : ∀ i, (entry i).access = .readWrite → (entry i).type.integer = true → (entry i).namesParams = true →
    (entry i).type ∈ [.int8, .uint8, .int16, .uint16] ∧ later i = saved i
  kept : ∀ i, (entry i).access = .read → (entry i).type ≠ .packet → pointed later i = pointed now i
  packetsKept : ∀ i, (entry i).access = .read → ∀ j ∈ reach i, later j ≠ now j →
    (entry j).access = .readWrite ∧ (entry j).inConfig = true

theorem loadsBack (o : Outside) (saved now : Store) : LoadsBack saved now (loadVars o saved now savedVars) where
  restored := by
    intro i writable integer named
    have scalar : (entry i).type ≠ .packet := by
      intro packet
      rw [packet] at integer
      cases integer
    have inside : (entry i).inConfig = true := by rw [VEntry.inConfig, named, decide_eq_true scalar]; rfl
    have among : i ∈ savedVars := List.mem_filter.mpr ⟨List.mem_finRange i, inside⟩
    exact ⟨variableEntriesTabled.narrow _ (entryIn i) inside writable integer,
      loadVarsRestore o saved among writable integer now (Or.inl among)⟩
  kept := by
    intro i readOnly scalar
    have own : reach i = [i] := if_neg scalar
    rw [pointed, pointed, own, List.map_singleton, List.map_singleton,
      loadVarsKeep o saved now fun _ _ => Or.inr readOnly]
  packetsKept := by
    intro i _ j _ changed
    constructor
    · cases access : (entry j).access with
      | readWrite => rfl
      | read => exact absurd (loadVarsKeep o saved now fun _ _ => Or.inr access) changed
    · by_contra outside
      refine changed (loadVarsKeep o saved now fun k among => Or.inl ?_)
      rintro rfl
      exact outside (savedVar among)

theorem savedVarsOnce : savedVars.Nodup := (List.nodup_finRange numVariables).filter _

/- joint_params[0], and joint_params[0].param.kp in it. -/
def jointParams : Fin numVariables := ⟨22, by decide +kernel⟩
def jointKp : Fin numVariables := ⟨24, by decide +kernel⟩

theorem jointKpSaved : jointKp ∈ savedVars :=
  List.mem_filter.mpr ⟨List.mem_finRange jointKp, by decide +kernel⟩

def written (o : Outside) (disk : Disk) (vars : Store) (path : Text) : Disk :=
  { disk with content := Function.update disk.content path (some (configBuffer o vars)) }

theorem configLoadsBack (o : Outside) (disk : Disk) (saved now : Store) (path : Text) (writable : disk.writable path = true) :
    ∃ (disk' : Disk) (later : Store), saveConfigFn o disk saved path = some ⟨0, [], disk'⟩ ∧
      (∀ fuel, savedVars.length < fuel → loadConfigFn o disk' fuel now path =
        some ⟨0, savedVars.flatMap (varLine o later), savedVars.flatMap (linePrinted o saved), later, ⟨[], true⟩⟩) ∧
      LoadsBack saved now later := by
  refine ⟨written o disk saved path, loadVars o saved now savedVars, ?_, ?_, loadsBack o saved now⟩
  · rw [saveConfigFn, if_pos writable, if_pos (configBufferFits o saved)]
    rfl
  · intro fuel enough
    have some_ : savedVars.isEmpty = false := by
      rw [List.isEmpty_eq_false_iff_exists_mem]
      exact ⟨jointKp, jointKpSaved⟩
    have run := loadRun o saved (fun _ inside => inside) savedVarsOnce fuel now [] [] enough
    rw [some_, List.nil_append, List.nil_append] at run
    have content : (written o disk saved path).content path = some (configBuffer o saved) := Function.update_self _ _ _
    rw [loadConfigFn, content]
    exact run

def blank : (t : VariableType) → t.Value
  | .packet | .string => []
  | .uint8 => (0 : UInt8)
  | .int8 => (0 : Int8)
  | .uint16 => (0 : UInt16)
  | .int16 => (0 : Int16)
  | .uint32 | .int32Hex | .float => (0 : UInt32)
  | .int32 => (0 : Int32)

def blankVars : Store := fun i => blank (entry i).type

/- A negative gain in all of the sixteen-bit integers. -/
def negative : (t : VariableType) → t.Value
  | .int16 => (-5 : Int16)
  | t => blank t

def gainVars : Store := fun i => negative (entry i).type

def blankOutside : Outside := ⟨fun s => if s = fixed 0 then some 0 else none, fun _ _ => [], fun _ _ => 0⟩

def emptyDisk : Disk := ⟨fun _ => none, fun _ => true⟩

theorem gainsReload : ∃ (disk' : Disk) (later : Store),
    saveConfigFn blankOutside emptyDisk gainVars "gains".toList = some ⟨0, [], disk'⟩ ∧
    (∀ fuel, savedVars.length < fuel → loadConfigFn blankOutside disk' fuel blankVars "gains".toList =
      some ⟨0, savedVars.flatMap (varLine blankOutside later), savedVars.flatMap (linePrinted blankOutside gainVars), later,
        ⟨[], true⟩⟩) ∧
    LoadsBack gainVars blankVars later :=
  configLoadsBack blankOutside emptyDisk gainVars blankVars "gains".toList rfl

/- The packet around a gain is an entry of its own, and it is read only. -/
theorem packetRewritten : ¬ ∀ (o : Outside) (disk : Disk) (saved now : Store) (path : Text), disk.writable path = true →
    ∃ (disk' : Disk) (later : Store), saveConfigFn o disk saved path = some ⟨0, [], disk'⟩ ∧
      (∀ fuel, savedVars.length < fuel → loadConfigFn o disk' fuel now path =
        some ⟨0, savedVars.flatMap (varLine o later), savedVars.flatMap (linePrinted o saved), later, ⟨[], true⟩⟩) ∧
      (∀ i, (entry i).access = .readWrite → (entry i).type.integer = true → (entry i).namesParams = true →
        later i = saved i) ∧
      ∀ i, (entry i).access = .read → pointed later i = pointed now i := by
  intro always
  obtain ⟨_, later, _, _, restored, kept⟩ := always blankOutside emptyDisk gainVars blankVars [] rfl
  have gain : later jointKp = gainVars jointKp :=
    restored jointKp (by decide +kernel) (by decide +kernel) (by decide +kernel)
  have inside : jointKp ∈ reach jointParams := by decide +kernel
  have same := List.map_inj_left.mp (kept jointParams (by decide +kernel)) jointKp inside
  have before : later jointKp = blankVars jointKp := eq_of_heq (Sigma.mk.inj same).2
  have type : (entry jointKp).type = .int16 := by decide +kernel
  rw [gain, gainVars, blankVars, type] at before
  exact absurd (show (-5 : Int16) = 0 from before) (by decide)

end OrazioLogger.OrazioShell
