import OrazioLogger.Shell

/-! A session of the shell, whatever is typed and whatever the other threads store: a variable has the value that it was
given last, and what is sent of it is that value. -/
namespace OrazioLogger.OrazioShell
open Logger (Text)
open TextScan Words

/-! What happens to the variables. -/

inductive Effect where
  | stored (i : Fin numVariables) (v : (entry i).type.Value)
  | assigned (name text : Text)
  | sent (i : Fin numVariables)

/- A variable that may be written takes what can be read of the text, and keeps its value if nothing can. -/
def Effect.on (o : Outside) (i : Fin numVariables) (v : (entry i).type.Value) : Effect → (entry i).type.Value
  | .stored j w => if same : j = i then same ▸ w else v
  | .assigned name text =>
    if (entry i).name = name ∧ (entry i).access = .readWrite then (scan o.scanFloat (entry i).type text).getD v else v
  | .sent _ => v

def Effect.done (o : Outside) (vars : Store) (e : Effect) : Store := fun i => e.on o i (vars i)

def settled (o : Outside) (vars : Store) (es : List Effect) : Store := es.foldl (Effect.done o) vars

/- The packets sent, each with the variables as they are. -/
def packets (o : Outside) : Store → List Effect → List (Fin numVariables × Store)
  | _, [] => []
  | vars, .sent i :: es => (i, vars) :: packets o vars es
  | vars, .stored i v :: es => packets o (Effect.done o vars (.stored i v)) es
  | vars, .assigned name text :: es => packets o (Effect.done o vars (.assigned name text)) es

def storing (values : Stored) : List Effect := values.map fun v => .stored v.1 v.2

/- The lines of a file up to the first name that is unknown. -/
def assignments : List Text → List Effect
  | name :: text :: others => if (findVar name).isSome then .assigned name text :: assignments others else []
  | _ => []

def fileWords (disk : Disk) (path : Text) : List Text := (disk.content path).elim [] (words isspace)

def waiting (turn : Turn) (n : Nat) : List Effect := (List.range n).flatMap fun k => storing (turn.waited k)

/- The effects of a command, by its words. -/
def cmdEffects (turn : Turn) (disk : Disk) (args : List Text) : CmdFn → List Effect
  | .quit | .print | .saveConfig => []
  | .set => [.assigned (argument args 0) (argument args 1)]
  | .dump => if (findVar (argument args 0)).isSome then waiting turn (dumpCycles (argument args 1)).toNat else []
  | .send =>
    match findVar (argument args 0) with
    | none => []
    | some i => if (entry i).type = .packet then .sent i :: waiting turn 1 else []
  | .param cmd =>
    match ParamCommands.paramQuery cmd (argument args 0) with
    | .error _ => []
    | .ok _ => waiting turn 1
  | .loadConfig => assignments (fileWords disk (argument args 0))

def lineEffects (turn : Turn) (disk : Disk) (line : Text) : List Effect :=
  match words isBlank line with
  | [] => []
  | name :: args =>
    match findCommand name with
    | none => []
    | some cmd => if args.length = cmd.nArgs then cmdEffects turn disk args cmd.cmdFn else []

def history (o : Outside) : List Turn → Shell → List Effect
  | [], _ => []
  | turn :: turns, s =>
    if s.run = true then
      storing turn.before ++
        match turn.line with
        | none => []
        | some line =>
          lineEffects turn s.disk line ++
            match executeCommand o shellBuffer turn { s with vars := stored s.vars turn.before } line with
            | none => []
            | some (_, _, next) => history o turns next
    else []

section Effects
variable {o : Outside} {turn : Turn} {s : Shell}

theorem settledAppend (vars : Store) (es more : List Effect) :
    settled o vars (es ++ more) = settled o (settled o vars es) more := List.foldl_append

theorem settledAt (vars : Store) (es : List Effect) (i : Fin numVariables) :
    settled o vars es i = es.foldl (Effect.on o i) (vars i) := by
  induction es generalizing vars with
  | nil => rfl
  | cons e es ih => exact ih (Effect.done o vars e)

theorem packetsAppend (vars : Store) (es more : List Effect) :
    packets o vars (es ++ more) = packets o vars es ++ packets o (settled o vars es) more := by
  induction es generalizing vars with
  | nil => rfl
  | cons e es ih =>
    cases e with
    | sent i => exact congrArg ((i, vars) :: ·) (ih vars)
    | stored i v => exact ih _
    | assigned name text => exact ih _

/- What a packet is sent with. -/
theorem packetsSplit {p : Fin numVariables} {snapshot : Store} {vars : Store} {es : List Effect}
    (among : (p, snapshot) ∈ packets o vars es) : ∃ earlier later, es = earlier ++ .sent p :: later ∧
      snapshot = settled o vars earlier := by
  induction es generalizing vars with
  | nil => cases among
  | cons e es ih =>
    cases e with
    | sent i =>
      rcases List.mem_cons.mp among with same | behind
      · obtain ⟨rfl, rfl⟩ := Prod.mk.inj same
        exact ⟨[], es, rfl, rfl⟩
      · obtain ⟨earlier, later, rfl, now⟩ := ih behind
        exact ⟨.sent i :: earlier, later, rfl, now⟩
    | stored i v =>
      obtain ⟨earlier, later, rfl, now⟩ := ih among
      exact ⟨.stored i v :: earlier, later, rfl, now⟩
    | assigned name text =>
      obtain ⟨earlier, later, rfl, now⟩ := ih among
      exact ⟨.assigned name text :: earlier, later, rfl, now⟩

theorem doneStored (vars : Store) (i : Fin numVariables) (v : (entry i).type.Value) :
    Effect.done o vars (.stored i v) = Function.update vars i v := by
  funext j
  rw [Effect.done, Effect.on]
  by_cases same : i = j
  · subst same
    rw [dif_pos rfl]
    exact (Function.update_self i v vars).symm
  · rw [dif_neg same]
    exact (Function.update_of_ne (fun equal => same equal.symm) v vars).symm

theorem storingSettled (vars : Store) (values : Stored) : settled o vars (storing values) = stored vars values := by
  induction values generalizing vars with
  | nil => rfl
  | cons v values ih =>
    refine (ih _).trans ?_
    rw [doneStored]
    rfl

theorem storingPackets (vars : Store) (values : Stored) : packets o vars (storing values) = [] := by
  induction values generalizing vars with
  | nil => rfl
  | cons v values ih => exact ih _

/- An assignment to a known name is VEntry_read of its entry. -/
theorem doneAssigned {name : Text} {i : Fin numVariables} (found : findVar name = some i) (vars : Store) (text : Text) :
    Effect.done o vars (.assigned name text) = (VEntryRead o vars i text).2 := by
  have named : (entry i).name = name := by simpa using List.find?_some found
  funext j
  rw [Effect.done, Effect.on, VEntryRead]
  by_cases same : i = j
  · subst same
    cases access : (entry i).access with
    | read => rw [if_neg (by simp)]
    | readWrite =>
      rw [if_pos ⟨named, rfl⟩]
      cases scan o.scanFloat (entry i).type text with
      | none => rfl
      | some v => exact (Function.update_self i v vars).symm
  · have other : (entry j).name ≠ name := fun equal => same (nameOnce (named.trans equal.symm))
    rw [if_neg fun both => other both.1]
    cases (entry i).access with
    | read => rfl
    | readWrite =>
      cases scan o.scanFloat (entry i).type text with
      | none => rfl
      | some v => exact (Function.update_of_ne (fun equal => same equal.symm) v vars).symm

theorem doneUnknown {name : Text} (unknown : findVar name = none) (vars : Store) (text : Text) :
    Effect.done o vars (.assigned name text) = vars := by
  funext j
  rw [Effect.done, Effect.on]
  refine if_neg fun both => ?_
  rw [← both.1, findVarOwn] at unknown
  cases unknown

theorem loadWordsSettled {ws : List Text} {vars : Store} {r : Text} {result : Int × Text × Store}
    (loaded : loadWords o ws vars r = some result) : result.2.2 = settled o vars (assignments ws) := by
  induction ws, vars, r using loadWords.induct o with
  | case1 name value others vars r sized unknown =>
    rw [loadWords, if_pos sized, unknown] at loaded
    rw [assignments, unknown, if_neg (by simp), ← Option.some.inj loaded]
    rfl
  | case2 name value vars r sized i known =>
    rw [loadWords, if_pos sized, known] at loaded
    dsimp only at loaded
    rw [if_pos rfl] at loaded
    rw [assignments, known, if_pos Option.isSome_some, ← Option.some.inj loaded]
    change _ = Effect.done o vars (.assigned name value)
    exact (doneAssigned known vars value).symm
  | case3 name value others vars r sized i known later text more ih =>
    rw [loadWords, if_pos sized, known] at loaded
    dsimp only at loaded
    rw [if_neg more] at loaded
    rw [ih loaded, assignments, known, if_pos Option.isSome_some]
    change _ = settled o (Effect.done o vars (.assigned name value)) (assignments others)
    rw [doneAssigned known]
  | case4 name value others vars r unsized =>
    rw [loadWords, if_neg unsized] at loaded
    cases loaded
  | case5 => cases loaded
  | case6 => cases loaded

theorem assignmentsPackets (vars : Store) (ws : List Text) : packets o vars (assignments ws) = [] := by
  induction ws using assignments.induct generalizing vars with
  | case1 name text others known ih =>
    rw [assignments, if_pos known]
    exact ih _
  | case2 name text others unknown =>
    rw [assignments, if_neg unknown]
    rfl
  | case3 ws other =>
    rw [assignments]
    · rfl
    · exact other

/-! One command. -/

/- The variables and the packets sent go from `s` to `t` by the effects. -/
structure Does (o : Outside) (s : Shell) (es : List Effect) (t : Shell) : Prop where
  vars : t.vars = settled o s.vars es
  sent : t.sent = s.sent ++ packets o s.vars es

theorem Does.nothing (s : Shell) : Does o s [] s := ⟨rfl, (List.append_nil s.sent).symm⟩

theorem Does.trans {t u : Shell} {es more : List Effect} (first : Does o s es t) (second : Does o t more u) :
    Does o s (es ++ more) u where
  vars := by rw [second.vars, first.vars, settledAppend]
  sent := by rw [second.sent, first.sent, first.vars, packetsAppend, List.append_assoc]

theorem Does.stores (values : Stored) : Does o s (storing values) { s with vars := stored s.vars values } where
  vars := (storingSettled s.vars values).symm
  sent := by rw [storingPackets, List.append_nil]

theorem Does.waits (n : Nat) : Does o s (waiting turn n)
    { s with vars := (List.range n).foldl (fun vars k => stored vars (turn.waited k)) s.vars } := by
  induction n with
  | zero => exact .nothing s
  | succ n ih =>
    rw [waiting, List.range_succ, List.flatMap_append, List.foldl_append, List.flatMap_singleton]
    exact ih.trans (.stores (turn.waited n))

theorem Does.waitsOnce : Does o s (waiting turn 1) { s with vars := stored s.vars (turn.waited 0) } := .waits 1

theorem dumpLoopVars (i : Fin numVariables) (n k : Nat) (vars : Store) : (dumpLoop o turn i n k vars).2 =
    (List.range' k n).foldl (fun vars k => stored vars (turn.waited k)) vars := by
  induction n generalizing k vars with
  | zero => rfl
  | succ n ih => exact ih (k + 1) _

theorem loadConfigDoes {disk : Disk} {path : Text} {vars : Store} {l : Loaded}
    (loaded : loadConfigFn o disk (fileFuel disk path) vars path = some l) :
    l.vars = settled o vars (assignments (fileWords disk path)) := by
  unfold loadConfigFn at loaded
  unfold fileWords
  unfold fileFuel at loaded
  cases content : disk.content path with
  | none =>
    rw [content] at loaded
    cases loaded
    rfl
  | some text =>
    rw [content] at loaded
    have enough : (words isspace text).length < text.length + 1 := Nat.lt_succ_of_le (wordsLength text)
    have same : (loadLoop o (text.length + 1) ⟨text, false⟩ vars [] []).map (fun l => (l.returned, l.response, l.vars)) =
        loadWords o (words isspace text) vars [] := loadLoopWords o (text.length + 1) vars [] [] rfl enough
    have read : loadLoop o (text.length + 1) ⟨text, false⟩ vars [] [] = some l := loaded
    rw [read] at same
    exact loadWordsSettled same.symm

theorem cmdFnDoes {args : List Text} {fn : CmdFn} {d : Done} (issued : cmdFn o turn s args fn = some d) :
    Does o s (cmdEffects turn s.disk args fn) d.shell := by
  cases fn with
  | quit =>
    cases issued
    exact ⟨rfl, (List.append_nil s.sent).symm⟩
  | print =>
    cases issued
    unfold printFn
    split <;> exact .nothing s
  | set =>
    cases issued
    unfold setFn cmdEffects
    cases found : findVar (argument args 0) with
    | none => exact ⟨(doneUnknown found s.vars _).symm, (List.append_nil s.sent).symm⟩
    | some i => exact ⟨(doneAssigned found s.vars _).symm, (List.append_nil s.sent).symm⟩
  | dump =>
    cases issued
    unfold dumpFn cmdEffects
    cases found : findVar (argument args 0) with
    | none => exact .nothing s
    | some i =>
      have waits : Does o s (waiting turn (dumpCycles (argument args 1)).toNat) _ := .waits _
      rw [List.range_eq_range'] at waits
      refine ⟨?_, waits.sent⟩
      exact (dumpLoopVars i _ 0 s.vars).trans waits.vars
  | send =>
    cases issued
    unfold sendFn cmdEffects
    cases found : findVar (argument args 0) with
    | none => exact .nothing s
    | some i =>
      dsimp only
      by_cases packet : (entry i).type = .packet
      · rw [if_pos packet, if_pos packet]
        have handed : Does o s [.sent i] { s with sent := s.sent ++ [(i, s.vars)] } := ⟨rfl, rfl⟩
        exact handed.trans .waitsOnce
      · rw [if_neg packet, if_neg packet]
        exact .nothing s
  | param cmd =>
    cases issued
    rw [cmdEffects, paramFn]
    cases ParamCommands.paramQuery cmd (argument args 0) with
    | error text => exact .nothing s
    | ok query => exact .waitsOnce
  | saveConfig =>
    obtain ⟨saved, -, rfl⟩ := Option.map_eq_some_iff.mp issued
    exact ⟨rfl, (List.append_nil s.sent).symm⟩
  | loadConfig =>
    obtain ⟨l, loaded, rfl⟩ := Option.map_eq_some_iff.mp issued
    refine ⟨loadConfigDoes loaded, ?_⟩
    rw [cmdEffects, assignmentsPackets, List.append_nil]

/-! One line, and the session. -/

theorem commandArguments {cmd : Command} (member : cmd ∈ commands) : cmd.nArgs < 10 := by
  have all : ∀ cmd ∈ commands, cmd.nArgs < 10 := by
    unfold commands command
    simp only [List.forall_mem_cons, List.not_mem_nil, false_implies, implies_true, and_true]
    decide
  exact all cmd member

/- Of more words than fit, ten are counted, which is too many for any command. -/
theorem argptrsFew {cmd : Command} (member : cmd ∈ commands) (ws : List Text) :
    (ws.take 10).length = cmd.nArgs ↔ ws.length = cmd.nArgs := by
  have few := commandArguments member
  rw [List.length_take]
  omega

/- Either no command is issued, and nothing happens, or it is the one of the first word. -/
theorem executeCommandCases {size : Nat} {line : Text} {returned : Int} {text : Text} {next : Shell}
    (executed : executeCommand o size turn s line = some (returned, text, next)) :
    lineEffects turn s.disk line = [] ∧ next = s ∨ ∃ name args cmd d, words isBlank line = name :: args ∧
      findCommand name = some cmd ∧ args.length = cmd.nArgs ∧ cmdFn o turn s args cmd.cmdFn = some d ∧ next = d.shell := by
  unfold executeCommand at executed
  unfold lineEffects
  split at executed
  · cases found : words isBlank line with
    | nil =>
      rw [strtokNone found] at executed
      cases executed
      exact .inl ⟨rfl, rfl⟩
    | cons name args =>
      obtain ⟨rest, taken, rfl⟩ := strtokSome found
      rw [taken] at executed
      dsimp only at executed ⊢
      cases known : findCommand name with
      | none =>
        rw [known] at executed
        cases executed
        exact .inl ⟨rfl, rfl⟩
      | some cmd =>
        rw [known] at executed
        dsimp only at executed ⊢
        have count := argptrsFew (List.mem_of_find?_eq_some known) (words isBlank rest)
        rw [argptrsWords] at executed
        by_cases counted : (words isBlank rest).length = cmd.nArgs
        · have few := commandArguments (List.mem_of_find?_eq_some known)
          have whole : (words isBlank rest).take 10 = words isBlank rest := List.take_of_length_le (by omega)
          rw [if_pos (count.mpr counted), whole] at executed
          cases issued : cmdFn o turn s (words isBlank rest) cmd.cmdFn with
          | none =>
            rw [issued] at executed
            cases executed
          | some d =>
            rw [issued] at executed
            dsimp only at executed
            split at executed
            · cases executed
              exact .inr ⟨name, _, cmd, d, rfl, known, counted, issued, rfl⟩
            · cases executed
        · rw [if_neg (mt count.mp counted)] at executed
          rw [if_neg counted]
          cases executed
          exact .inl ⟨rfl, rfl⟩
  · cases executed

theorem executeCommandDoes {size : Nat} {line : Text} {returned : Int} {text : Text} {next : Shell}
    (executed : executeCommand o size turn s line = some (returned, text, next)) :
    Does o s (lineEffects turn s.disk line) next := by
  rcases executeCommandCases executed with ⟨none, rfl⟩ | ⟨name, args, cmd, d, typed, known, counted, issued, rfl⟩
  · rw [none]
    exact .nothing next
  · unfold lineEffects
    rw [typed]
    dsimp only
    rw [known]
    dsimp only
    rw [if_pos counted]
    exact cmdFnDoes issued

theorem shellStartDoes {turns : List Turn} {texts : List Text} {last : Shell}
    (ran : shellStart o turns s = some (texts, last)) : Does o s (history o turns s) last := by
  induction turns generalizing s texts with
  | nil =>
    cases ran
    exact .nothing _
  | cons turn turns ih =>
    unfold shellStart at ran
    unfold history
    by_cases running : s.run = true
    · rw [if_pos running] at ran ⊢
      have before : Does o s (storing turn.before) { s with vars := stored s.vars turn.before } := .stores turn.before
      cases typed : turn.line with
      | none =>
        rw [typed] at ran
        have stopped : shellStart o turns { s with vars := stored s.vars turn.before, run := false } =
            some ([], { s with vars := stored s.vars turn.before, run := false }) := by
          cases turns <;> rfl
        have ended := ran.symm.trans stopped
        cases ended
        rw [List.append_nil]
        exact ⟨before.vars, before.sent⟩
      | some line =>
        rw [typed] at ran
        dsimp only at ran ⊢
        cases executed : executeCommand o shellBuffer turn { s with vars := stored s.vars turn.before } line with
        | none =>
          rw [executed] at ran
          cases ran
        | some result =>
          obtain ⟨returned, text, next⟩ := result
          rw [executed] at ran
          obtain ⟨rest, after, same⟩ := Option.map_eq_some_iff.mp ran
          cases same
          exact before.trans ((executeCommandDoes executed).trans (ih after))
    · rw [if_neg running] at ran ⊢
      cases ran
      exact .nothing _

end Effects

/-! Main result. -/

/- Each variable goes by what is stored in it and by the assignments that name it, and a packet is sent with the values
that these come to. -/
structure Session (o : Outside) (turns : List Turn) (s last : Shell) : Prop where
  values : ∀ i, last.vars i = (history o turns s).foldl (Effect.on o i) (s.vars i)
  packets : ∀ p snapshot, (p, snapshot) ∈ last.sent → (p, snapshot) ∈ s.sent ∨
    ∃ earlier later, history o turns s = earlier ++ .sent p :: later ∧
      ∀ i, snapshot i = earlier.foldl (Effect.on o i) (s.vars i)

theorem shellSession (o : Outside) (turns : List Turn) (s : Shell) {texts : List Text} {last : Shell}
    (ran : shellStart o turns s = some (texts, last)) : Session o turns s last := by
  have does := shellStartDoes ran
  refine ⟨fun i => ?_, fun p snapshot among => ?_⟩
  · rw [does.vars, settledAt]
  · rw [does.sent] at among
    rcases List.mem_append.mp among with before | new
    · exact .inl before
    · obtain ⟨earlier, later, split, now⟩ := packetsSplit new
      exact .inr ⟨earlier, later, split, fun i => by rw [now, settledAt]⟩

def typed (line : String) : Turn := ⟨some line.toList, [], fun _ => [], 0⟩

def speedTurns : List Turn :=
  [typed "set joint_control[0].control.speed  7", typed "send joint_control[0]", typed "quit", typed "set"]

def idleShell : Shell := ⟨blankVars, emptyDisk, true, []⟩

/- joint_control[0].control.speed -/
def speedVar : Fin numVariables := ⟨39, by decide +kernel⟩

def sentSpeeds (s : Shell) : List Text := s.sent.map fun packet => VEntryWrite blankOutside packet.2 speedVar

theorem speedSent : ∃ texts last, shellStart blankOutside speedTurns idleShell = some (texts, last) ∧
    sentSpeeds last = ["7".toList] ∧ Session blankOutside speedTurns idleShell last := by
  have runs : (shellStart blankOutside speedTurns idleShell).map (fun ran => sentSpeeds ran.2) = some ["7".toList] := by
    decide +kernel
  obtain ⟨⟨texts, last⟩, ran, speeds⟩ := Option.map_eq_some_iff.mp runs
  exact ⟨texts, last, ran, speeds, shellSession blankOutside speedTurns idleShell ran⟩

/- What is printed, and a number that no long holds. -/
example : (shellStart blankOutside [typed "set system_params.watchdog_cycles 18446744073709551616",
    typed "set system_params.num_joints 3", typed "send drive_params.ikr"] idleShell).map (fun ran => ran.1.map String.ofList) =
    some ["system_params.watchdog_cycles 65535\n\nOK\n",
      "access error Owned: 1 Required: 1\nsystem_params.num_joints 0\n\nOK\n",
      "send: allowed only for full packets\nERROR -1\n"] := by
  decide +kernel

end OrazioLogger.OrazioShell
