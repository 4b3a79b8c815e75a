import OrazioLogger.ConfigFile
import OrazioLogger.ParamCommands
import OrazioLogger.Support.Words

/-! The command line of orazio_shell_commands.c, and the session of orazio_shell_globals.c: whatever is typed, a variable
has the value it was given last. -/
namespace OrazioLogger.OrazioShell
open Logger (Text)
open TextScan Words

/-! Taking a line apart. -/

def isBlank (c : Char) : Bool := c = ' '

/- `strtok` from where it stopped; the blank behind a word is overwritten. -/
def strtok (rest : Text) : Option Text × Text :=
  if rest.dropWhile isBlank = [] then (none, [])
  else (some ((rest.dropWhile isBlank).takeWhile (!isBlank ·)), ((rest.dropWhile isBlank).dropWhile (!isBlank ·)).tail)

def argptrs : Nat → Text → List Text
  | 0, _ => []
  | n + 1, rest =>
    match strtok rest with
    | (none, _) => []
    | (some argument, rest) => argument :: argptrs n rest

theorem strtokNone {rest : Text} (none : words isBlank rest = []) : strtok rest = (Option.none, []) :=
  if_pos (wordsBlank.mp none)

theorem strtokSome {rest first : Text} {others : List Text} (some : words isBlank rest = first :: others) :
    ∃ later, strtok rest = (Option.some first, later) ∧ words isBlank later = others := by
  have inside : rest.dropWhile isBlank ≠ [] := fun none => by
    rw [wordsBlank.mpr none] at some
    contradiction
  rw [wordsSome inside] at some
  obtain ⟨rfl, rfl⟩ := List.cons.inj some
  exact ⟨_, if_neg inside, wordsTail _⟩

theorem argptrsWords (n : Nat) (rest : Text) : argptrs n rest = (words isBlank rest).take n := by
  induction n generalizing rest with
  | zero => rfl
  | succ n ih =>
    rw [argptrs]
    cases found : words isBlank rest with
    | nil =>
      rw [strtokNone found]
      rfl
    | cons first others =>
      obtain ⟨later, taken, rfl⟩ := strtokSome found
      rw [taken, List.take_succ_cons, ← ih later]

/-! Taking a file apart. -/

theorem wordNone {s : Stream} (none : words isspace s.rest = []) : word s = (Option.none, skipSpace s) :=
  if_pos (wordsBlank.mp none)

theorem wordSome {s : Stream} {first : Text} {others : List Text} (some : words isspace s.rest = first :: others) :
    ∃ t, word s = (Option.some first, t) ∧ words isspace t.rest = others ∧ t.eof = (s.eof || t.rest.isEmpty) := by
  have inside : s.rest.dropWhile isspace ≠ [] := fun none => by
    rw [wordsBlank.mpr none] at some
    contradiction
  rw [wordsSome inside] at some
  obtain ⟨rfl, rfl⟩ := List.cons.inj some
  refine ⟨_, if_neg inside, rfl, ?_⟩
  have more : (s.rest.dropWhile isspace).isEmpty = false := List.isEmpty_eq_false_iff.mpr inside
  change ((s.eof || (s.rest.dropWhile isspace).isEmpty) || _) = _
  rw [more, Bool.or_false]
  rfl

theorem skipSpaceWords (s : Stream) : words isspace (skipSpace s).rest = words isspace s.rest := wordsDropWhile s.rest

theorem scanPairBoth {s : Stream} {first second : Text} {others : List Text}
    (both : words isspace s.rest = first :: second :: others) (more : s.eof = false) :
    ∃ t, scanPair s = (some first, some second, t) ∧ words isspace t.rest = others ∧ t.eof = others.isEmpty := by
  obtain ⟨t, read, rest, ended⟩ := wordSome both
  obtain ⟨u, again, last, eof⟩ := wordSome ((skipSpaceWords t).trans rest)
  refine ⟨skipSpace u, ?_, (skipSpaceWords u).trans last, ?_⟩
  · rw [scanPair, read]
    dsimp only
    rw [again]
  · have first : t.rest.isEmpty = false := List.isEmpty_eq_false_iff.mpr fun none => by
      rw [none, wordsNone rfl] at rest
      contradiction
    have between : (skipSpace t).eof = false := by
      have inside : (t.rest.dropWhile isspace).isEmpty = false := List.isEmpty_eq_false_iff.mpr fun none => by
        rw [wordsBlank.mpr none] at rest
        contradiction
      change (t.eof || (t.rest.dropWhile isspace).isEmpty) = false
      rw [ended, more, first, inside]
      rfl
    change (u.eof || (u.rest.dropWhile isspace).isEmpty) = _
    rw [eof, between, Bool.false_or, ← last]
    cases blank : u.rest.dropWhile isspace with
    | nil =>
      rw [wordsNone blank]
      simp
    | cons c later =>
      have some : u.rest ≠ [] := fun none => by rw [none] at blank; contradiction
      have word : words isspace u.rest ≠ [] := fun none => by rw [wordsBlank.mp none] at blank; contradiction
      rw [List.isEmpty_eq_false_iff.mpr some, List.isEmpty_eq_false_iff.mpr word]
      rfl

theorem scanPairShort {s : Stream} (short : (words isspace s.rest).length < 2) : (scanPair s).2.1 = none := by
  cases found : words isspace s.rest with
  | nil => rw [scanPair, wordNone found]
  | cons first others =>
    rw [found, List.length_cons] at short
    have none : others = [] := List.length_eq_zero_iff.mp (by omega)
    obtain ⟨t, read, rest, -⟩ := wordSome found
    rw [scanPair, read]
    dsimp only
    rw [wordNone ((skipSpaceWords t).trans (rest.trans none))]

/- What load_config does with the words of a file. -/
def loadWords (o : Outside) : List Text → Store → Text → Option (Int × Text × Store)
  | name :: value :: others, vars, r =>
    if name.length < 1024 ∧ value.length < 1024 then
      match findVar name with
      | none => some (-1, r ++ unknownVar name, vars)
      | some i =>
        let later := (VEntryRead o vars i value).2
        let text := r ++ (name ++ ' ' :: (VEntryWrite o later i ++ ['\n']))
        if others = [] then some (0, text, later) else loadWords o others later text
    else none
  | [_], _, _ => none
  | [], _, _ => none

theorem loadLoopWords (o : Outside) (fuel : Nat) {file : Stream} (vars : Store) (r printed : Text) (more : file.eof = false)
    (enough : (words isspace file.rest).length < fuel) :
    (loadLoop o fuel file vars r printed).map (fun l => (l.returned, l.response, l.vars)) =
      loadWords o (words isspace file.rest) vars r := by
  induction fuel generalizing file vars r printed with
  | zero => exact absurd enough (Nat.not_lt_zero _)
  | succ fuel ih =>
    have going : ¬ file.eof = true := by rw [more]; exact Bool.false_ne_true
    rw [loadLoop, if_neg going]
    by_cases short : (words isspace file.rest).length < 2
    · have none := scanPairShort short
      have nothing : loadWords o (words isspace file.rest) vars r = Option.none := by
        cases found : words isspace file.rest with
        | nil => rfl
        | cons first others =>
          rw [found, List.length_cons] at short
          rw [List.length_eq_zero_iff.mp (by omega : others.length = 0)]
          rfl
      rw [nothing]
      generalize scanPair file = scanned at none
      obtain ⟨first, second, rest⟩ := scanned
      cases none
      cases first <;> rfl
    · obtain ⟨first, second, others, found⟩ : ∃ first second others, words isspace file.rest = first :: second :: others := by
        obtain ⟨first, rest, shape⟩ := List.exists_cons_of_length_pos (show 0 < (words isspace file.rest).length by omega)
        rw [shape, List.length_cons] at short
        obtain ⟨second, others, rfl⟩ := List.exists_cons_of_length_pos (show 0 < rest.length by omega)
        exact ⟨first, second, others, shape⟩
      obtain ⟨t, read, rest, eof⟩ := scanPairBoth found more
      rw [found, List.length_cons, List.length_cons] at enough
      rw [read, found, loadWords]
      dsimp only
      by_cases sized : first.length < 1024 ∧ second.length < 1024
      · rw [if_pos sized, if_pos sized]
        cases known : findVar first with
        | none => rfl
        | some i =>
          dsimp only
          by_cases last : others = []
          · rw [if_pos last]
            obtain ⟨fuel, rfl⟩ : ∃ k, fuel = k + 1 := ⟨fuel - 1, by omega⟩
            rw [loadLoop, if_pos (by rw [eof, last]; rfl)]
            rfl
          · rw [if_neg last, ← rest]
            refine ih _ _ _ (by rw [eof]; exact List.isEmpty_eq_false_iff.mpr last) (by rw [rest]; omega)
      · rw [if_neg sized, if_neg sized]
        rfl

/-! The commands. -/

inductive CmdFn where
  | quit | print | set | dump | send
  | param (cmd : ParamCommands.Command)
  | saveConfig | loadConfig
  deriving DecidableEq, Repr

structure Command where
  name : Text
  nArgs : Nat
  cmdFn : CmdFn
  help : Text
  deriving DecidableEq, Repr

def command (name : String) (nArgs : Nat) (cmdFn : CmdFn) (help : String) : Command := ⟨name.toList, nArgs, cmdFn, help.toList⟩

def commands : List Command :=
  [command "quit" 0 .quit "usage: quit",
    command "print" 1 .print "usage: print <variable or field>",
    command "set" 2 .set "usage: set <variable or field> <value>",
    command "dump" 2 .dump "usage: dump <variable or field> <cycles>",
    command "send" 1 .send "usage: send <variable or field>",
    command "request" 1 (.param .request) "usage: request <parameter packet>",
    command "fetch" 1 (.param .fetch) "usage: load <parameter packet>",
    command "store" 1 (.param .store) "usage: save <parameter packet>",
    command "save_config" 1 .saveConfig "usage: save_config <filename>",
    command "load_config" 1 .loadConfig "usage: load_config <filename>"]

def findCommand (name : Text) : Option Command := commands.find? fun cmd => cmd.name = name

abbrev Stored := List (Σ i : Fin numVariables, (entry i).type.Value)

def stored (vars : Store) (values : Stored) : Store := values.foldl (fun vars v => Function.update vars v.1 v.2) vars

/- One line, or the end of the input; and what the other threads store: before it is read, and until a command that waits
is woken for the n-th time. `waited` also stands for the query of a parameter command and for the seq that _sendPacket
writes into the packet. `status` is what the client returns. -/
structure Turn where
  line : Option Text
  before : Stored
  waited : Nat → Stored
  status : Int

/- `sent` keeps the packets handed to the client, each with the variables at that time. -/
structure Shell where
  vars : Store
  disk : Disk
  run : Bool
  sent : List (Fin numVariables × Store)

/- What a command returns and writes to its response, and the lines it prints itself. -/
structure Done where
  returned : Int
  response : Text
  printed : Text
  shell : Shell

section Functions
variable (o : Outside) (turn : Turn) (s : Shell) (args : List Text)

def argument (args : List Text) (n : Nat) : Text := args.getD n []

def printFn : Done :=
  match findVar (argument args 0) with
  | none => ⟨-1, "print: unknown variable name [".toList ++ argument args 0 ++ "]\n".toList, [], s⟩
  | some i => ⟨0, VEntryWrite o s.vars i, VEntryWritePrinted o s.vars i ++ ['\n'], s⟩

def setFn : Done :=
  match findVar (argument args 0) with
  | none => ⟨-1, unknownVar (argument args 0), [], s⟩
  | some i =>
    let s := { s with vars := (VEntryRead o s.vars i (argument args 1)).2 }
    ⟨0, argument args 0 ++ ' ' :: (VEntryWrite o s.vars i ++ ['\n']), VEntryReadPrinted i ++ VEntryWritePrinted o s.vars i, s⟩

def quitFn : Done := ⟨0, [], [], { s with run := false }⟩

def isControlPacket (name : Text) : Bool :=
  ["param_control", "joint_control", "joint_control[0]", "joint_control[1]", "drive_control"].any fun set => set.toList = name

/- A packet that may not be sent is sent all the same. -/
def sendFn : Done :=
  match findVar (argument args 0) with
  | none => ⟨-1, "send: unknown variable [".toList ++ argument args 0 ++ "]\n".toList, [], s⟩
  | some i =>
    let r : Text := []
    -- the message about it is printed with `r` as the format, which is still empty
    let refused := if ¬ ParamCommands.isParamPacket (argument args 0) ∧ ¬ isControlPacket (argument args 0) then r else []
    if (entry i).type = .packet then
      ⟨turn.status, r, refused, { s with vars := stored s.vars (turn.waited 0), sent := s.sent ++ [(i, s.vars)] }⟩
    else ⟨-1, r, refused ++ "send: allowed only for full packets\n".toList, s⟩

def paramFn (cmd : ParamCommands.Command) : Done :=
  match ParamCommands.paramQuery cmd (argument args 0) with
  | .error text => ⟨-1, text, [], s⟩
  | .ok _ => ⟨turn.status, [], [], { s with vars := stored s.vars (turn.waited 0) }⟩

/- The variable at each of the wake-ups from the k-th on. -/
def dumpLoop (i : Fin numVariables) : Nat → Nat → Store → Text × Store
  | 0, _, vars => ([], vars)
  | n + 1, k, vars =>
    let vars := stored vars (turn.waited k)
    let (lines, last) := dumpLoop i n (k + 1) vars
    (VEntryWritePrinted o vars i ++ (entry i).name ++ ": ".toList ++ VEntryWrite o vars i ++ '\n' :: lines, last)

def atoi (text : Text) : Int := (Int32.ofInt (strtol ((scanInt text).getD 0))).toInt

def dumpCycles (text : Text) : Int := min (atoi text) 100

def dumpFn : Done :=
  match findVar (argument args 0) with
  | none => ⟨-1, [], [], s⟩
  | some i =>
    let dump := dumpCycles (argument args 1)
    let (lines, last) := dumpLoop o turn i dump.toNat 0 s.vars
    ⟨0, [], "dumping value of var ".toList ++ (entry i).name ++ " for ".toList ++ decimal dump ++ " cycles\n".toList ++ lines,
      { s with vars := last }⟩

/- A file has no more words than characters. -/
def fileFuel (disk : Disk) (path : Text) : Nat := (disk.content path).elim 0 fun text => text.length + 1

def cmdFn : CmdFn → Option Done
  | .quit => some (quitFn s)
  | .print => some (printFn o s args)
  | .set => some (setFn o s args)
  | .dump => some (dumpFn o turn s args)
  | .send => some (sendFn turn s args)
  | .param cmd => some (paramFn turn s args cmd)
  | .saveConfig => (saveConfigFn o s.disk s.vars (argument args 0)).map fun saved =>
      ⟨saved.returned, saved.response, [], { s with disk := saved.disk }⟩
  | .loadConfig => (loadConfigFn o s.disk (fileFuel s.disk (argument args 0)) s.vars (argument args 0)).map fun l =>
      ⟨l.returned, l.response, l.printed, { s with vars := l.vars }⟩

end Functions

/- What executeCommand prints of a command that was issued. -/
def report (d : Done) : Text :=
  d.printed ++ (if d.response = [] then [] else d.response ++ ['\n']) ++
    (if d.returned = 0 then "OK\n".toList else "ERROR ".toList ++ decimal d.returned ++ ['\n'])

/- None is a line or a response that does not fit its buffer, or a file that load_config cannot read. -/
def executeCommand (o : Outside) (size : Nat) (turn : Turn) (s : Shell) (line : Text) : Option (Int × Text × Shell) :=
  if line.length < 1024 then
    match strtok line with
    | (none, _) => some (-1, [], s)
    | (some name, rest) =>
      match findCommand name with
      | none => some (-1, "ERROR: unknown command [".toList ++ name ++ "]\n".toList, s)
      | some cmd =>
        if (argptrs 10 rest).length = cmd.nArgs then
          match cmdFn o turn s (argptrs 10 rest) cmd.cmdFn with
          | none => none
          | some d => if d.response.length < size then some (d.returned, report d, d.shell) else none
        else some (0, "ERROR: command not issued. Wrong number of arguments\n ".toList ++ cmd.help ++ ['\n'], s)
  else none

def shellBuffer : Nat := 10000

/- Orazio_shellStart behind the line that it has started: the texts of the commands, and the shell when the loop is left or
no turn is left. -/
def shellStart (o : Outside) : List Turn → Shell → Option (List Text × Shell)
  | [], s => some ([], s)
  | turn :: turns, s =>
    if s.run = true then
      match turn.line with
      | none => shellStart o turns { s with vars := stored s.vars turn.before, run := false }
      | some line =>
        match executeCommand o shellBuffer turn { s with vars := stored s.vars turn.before } line with
        | none => none
        | some (_, text, next) => (shellStart o turns next).map fun rest => (text :: rest.1, rest.2)
    else some ([], s)

end OrazioLogger.OrazioShell
