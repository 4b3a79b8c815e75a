import OrazioLogger.ShellSession

/-! save_config and load_config as commands of one session: what is saved is set again, whatever is done in between. -/
namespace OrazioLogger.OrazioShell
open Logger (Text)
open TextScan Words

section Issued
variable {o : Outside} {turn : Turn} {s : Shell} {path : Text}

theorem executeCommandIssued {size : Nat} {line name : Text} {args : List Text} {cmd : Command} {d : Done}
    (short : line.length < 1024) (typed : words isBlank line = name :: args) (known : findCommand name = some cmd)
    (counted : args.length = cmd.nArgs) (issued : cmdFn o turn s args cmd.cmdFn = some d) (fits : d.response.length < size) :
    executeCommand o size turn s line = some (d.returned, report d, d.shell) := by
  obtain ⟨rest, taken, rfl⟩ := strtokSome typed
  have few := commandArguments (List.mem_of_find?_eq_some known)
  have whole : (words isBlank rest).take 10 = words isBlank rest := List.take_of_length_le (by omega)
  unfold executeCommand
  rw [if_pos short, taken]
  dsimp only
  rw [known]
  dsimp only
  rw [argptrsWords, whole, if_pos counted, issued]
  dsimp only
  rw [if_pos fits]

/-! Files. -/

theorem cmdFnContent {args : List Text} {fn : CmdFn} {d : Done} (issued : cmdFn o turn s args fn = some d)
    (other : fn = .saveConfig → argument args 0 ≠ path) : d.shell.disk.content path = s.disk.content path := by
  cases fn with
  | quit =>
    cases issued
    rfl
  | print =>
    cases issued
    unfold printFn
    split <;> rfl
  | set =>
    cases issued
    unfold setFn
    split <;> rfl
  | dump =>
    cases issued
    unfold dumpFn
    split <;> rfl
  | send =>
    cases issued
    unfold sendFn
    split
    · rfl
    · dsimp only
      split <;> rfl
  | param cmd =>
    cases issued
    unfold paramFn
    split <;> rfl
  | saveConfig =>
    obtain ⟨saved, done, rfl⟩ := Option.map_eq_some_iff.mp issued
    unfold saveConfigFn at done
    split at done
    · split at done
      · cases done
        exact Function.update_of_ne (other rfl).symm _ _
      · cases done
    · cases done
      rfl
  | loadConfig =>
    obtain ⟨l, -, rfl⟩ := Option.map_eq_some_iff.mp issued
    rfl

def saveWord : Text := "save_config".toList

def loadWord : Text := "load_config".toList

theorem saveCommand : ∀ cmd ∈ commands, cmd.cmdFn = .saveConfig → cmd.name = saveWord ∧ cmd.nArgs = 1 := by decide +kernel

theorem saveFound : ∃ cmd, findCommand saveWord = some cmd ∧ cmd.cmdFn = .saveConfig ∧ cmd.nArgs = 1 :=
  ⟨command "save_config" 1 .saveConfig "usage: save_config <filename>", by decide +kernel, rfl, rfl⟩

theorem loadFound : ∃ cmd, findCommand loadWord = some cmd ∧ cmd.cmdFn = .loadConfig ∧ cmd.nArgs = 1 :=
  ⟨command "load_config" 1 .loadConfig "usage: load_config <filename>", by decide +kernel, rfl, rfl⟩

/- Only a save to a path writes the file there. -/
theorem executeCommandContent {size : Nat} {line : Text} {returned : Int} {text : Text} {next : Shell}
    (executed : executeCommand o size turn s line = some (returned, text, next))
    (other : words isBlank line ≠ [saveWord, path]) : next.disk.content path = s.disk.content path := by
  rcases executeCommandCases executed with ⟨-, rfl⟩ | ⟨name, args, cmd, d, typed, known, counted, issued, rfl⟩
  · rfl
  · refine cmdFnContent issued fun save here => other ?_
    obtain ⟨named, one⟩ := saveCommand cmd (List.mem_of_find?_eq_some known) save
    have same : cmd.name = name := by simpa using List.find?_some known
    obtain ⟨only, rfl⟩ := List.length_eq_one_iff.mp (counted.trans one)
    rw [typed, ← same, named, ← here]
    rfl

def Spares (path : Text) (turns : List Turn) : Prop :=
  ∀ turn ∈ turns, ∀ line, turn.line = some line → words isBlank line ≠ [saveWord, path]

theorem shellStartContent {turns : List Turn} {texts : List Text} {last : Shell} (spared : Spares path turns)
    (ran : shellStart o turns s = some (texts, last)) : last.disk.content path = s.disk.content path := by
  induction turns generalizing s texts with
  | nil =>
    cases ran
    rfl
  | cons turn turns ih =>
    have others : Spares path turns := fun t among => spared t (List.mem_cons_of_mem _ among)
    unfold shellStart at ran
    split at ran
    · cases typed : turn.line with
      | none =>
        rw [typed] at ran
        have kept := ih others ran
        exact kept
      | some line =>
        rw [typed] at ran
        dsimp only at ran
        cases executed : executeCommand o shellBuffer turn { s with vars := stored s.vars turn.before } line with
        | none =>
          rw [executed] at ran
          cases ran
        | some result =>
          obtain ⟨returned, text, next⟩ := result
          rw [executed] at ran
          obtain ⟨rest, after, same⟩ := Option.map_eq_some_iff.mp ran
          cases same
          have written := executeCommandContent executed (spared turn List.mem_cons_self line typed)
          exact (ih others after).trans written
    · cases ran
      rfl

/-! The response of load_config. -/

theorem savedLinesShort (o : Outside) (vars : Store) : (savedVars.flatMap (varLine o vars)).length < shellBuffer := by
  have lines : (savedVars.flatMap (varLine o vars)).length ≤ (savedVars.map fun i => (entry i).name.length + 48).sum := by
    rw [List.length_flatMap]
    exact List.sum_le_sum fun i among => varLineLength o vars among
  have rows : (savedVars.map fun i => (entry i).name.length + 48).sum < shellBuffer := by decide +kernel
  exact Nat.lt_of_le_of_lt lines rows

theorem savedFewer (o : Outside) (vars : Store) (is : List (Fin numVariables)) : is.length ≤ (is.flatMap (varLine o vars)).length := by
  induction is with
  | nil => exact Nat.zero_le _
  | cons i is ih =>
    rw [List.flatMap_cons, List.length_cons, List.length_append, varLine, List.length_append, List.length_cons]
    omega

end Issued

/-! Main result. -/

/- The save succeeds, and after any turns that do not save to the path again the load succeeds, finds nothing unknown, and
sets what was saved of the values at the save. -/
def ConfigKept (o : Outside) (path saveLine loadLine : Text) (saveTurn loadTurn : Turn) (s : Shell) : Prop :=
  ∃ saved, executeCommand o shellBuffer saveTurn s saveLine = some (0, "OK\n".toList, saved) ∧ saved.vars = s.vars ∧
    ∀ turns texts now, Spares path turns → shellStart o turns saved = some (texts, now) →
      ∃ text later, executeCommand o shellBuffer loadTurn now loadLine = some (0, text, later) ∧
        LoadsBack s.vars now.vars later.vars

theorem configKept (o : Outside) (path saveLine loadLine : Text) (saveTurn loadTurn : Turn) (s : Shell)
    (saving : saveLine.length < 1024 ∧ words isBlank saveLine = [saveWord, path])
    (loading : loadLine.length < 1024 ∧ words isBlank loadLine = [loadWord, path]) (writable : s.disk.writable path = true) :
    ConfigKept o path saveLine loadLine saveTurn loadTurn s := by
  obtain ⟨save, known, fn, one⟩ := saveFound
  have issued : cmdFn o saveTurn s [path] save.cmdFn = some ⟨0, [], [], { s with disk := written o s.disk s.vars path }⟩ := by
    have fits : (configBuffer o s.vars).length < 10240 := configBufferFits o s.vars
    have opened : saveConfigFn o s.disk s.vars path = some ⟨0, [], written o s.disk s.vars path⟩ := by
      rw [saveConfigFn, if_pos writable, if_pos fits]
      rfl
    rw [fn]
    change (saveConfigFn o s.disk s.vars path).map _ = _
    rw [opened]
    rfl
  refine ⟨{ s with disk := written o s.disk s.vars path },
    executeCommandIssued saving.1 saving.2 known one.symm issued (show 0 < shellBuffer by decide), rfl, fun turns texts now spared ran => ?_⟩
  have content : now.disk.content path = some (configBuffer o s.vars) :=
    (shellStartContent spared ran).trans (Function.update_self _ _ _)
  obtain ⟨load, found, fn, one⟩ := loadFound
  have some_ : savedVars.isEmpty = false := List.isEmpty_eq_false_iff.mpr (List.ne_nil_of_mem jointKpSaved)
  have enough : savedVars.length < (configBuffer o s.vars).length + 1 := Nat.lt_succ_of_le (savedFewer o s.vars savedVars)
  have run := loadRun o s.vars (fun _ inside => inside) savedVarsOnce _ now.vars [] [] enough
  rw [some_, List.nil_append, List.nil_append] at run
  have loaded : cmdFn o loadTurn now [path] load.cmdFn =
      some ⟨0, savedVars.flatMap (varLine o (loadVars o s.vars now.vars savedVars)), savedVars.flatMap (linePrinted o s.vars),
        { now with vars := loadVars o s.vars now.vars savedVars }⟩ := by
    have read : loadConfigFn o now.disk (fileFuel now.disk path) now.vars path =
        some ⟨0, savedVars.flatMap (varLine o (loadVars o s.vars now.vars savedVars)), savedVars.flatMap (linePrinted o s.vars),
          loadVars o s.vars now.vars savedVars, ⟨[], true⟩⟩ := by
      unfold loadConfigFn fileFuel
      rw [content]
      exact run
    rw [fn]
    change (loadConfigFn o now.disk (fileFuel now.disk path) now.vars path).map _ = _
    rw [read]
    rfl
  exact ⟨_, _, executeCommandIssued loading.1 loading.2 found one.symm loaded (savedLinesShort o _),
    loadsBack o s.vars now.vars⟩

theorem fewWords {line : Text} {ws : List Text} (few : ws.length < 10) (taken : argptrs 10 line = ws) :
    words isBlank line = ws := by
  rw [argptrsWords] at taken
  have counted : ((words isBlank line).take 10).length < 10 := by rw [taken]; exact few
  rw [List.length_take] at counted
  rw [← taken, List.take_of_length_le (by omega)]

def gains : Text := "gains".toList

def saveGains : Text := "save_config gains".toList

def loadGains : Text := " load_config  gains ".toList

theorem gainsKept : ConfigKept blankOutside gains saveGains loadGains (typed "") (typed "") idleShell :=
  configKept blankOutside gains saveGains loadGains (typed "") (typed "") idleShell
    ⟨by decide +kernel, fewWords (by decide) (by decide +kernel)⟩
    ⟨by decide +kernel, fewWords (by decide) (by decide +kernel)⟩ rfl

end OrazioLogger.OrazioShell
