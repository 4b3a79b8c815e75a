import OrazioLogger.Logger
import OrazioLogger.Support.TextRecords

/-! The lines printfileThread writes and DifferentialDriveStatusPacket_print fills, and what visualizer.py and
visualizer2.py, whose readers are the same, read from them. -/
namespace OrazioLogger.Visualizer
open Logger (Text GenDataType Line)
open TextRecords

/-! The writer. -/

/- `%05d`. -/
def padded (n : Nat) : Text := (Nat.toDigits 10 n).leftpad 5 '0'

def kind : GenDataType → Text
  | .image => "FRAME".toList
  | .drivePacket => "DRIVE".toList
  | .sonarPacket => "SONAR".toList
  | .systemPacket => "SYSTEM".toList
  | .jointPacket => "JOINT".toList

def lineText (l : Line) : Text := padded l.ts ++ ";\t".toList ++ kind l.type ++ ";\t".toList ++ l.text ++ "\n".toList

def logText (records : List Line) : Text := records.flatMap lineText

structure DifferentialDriveStatusPacket (F : Type) where
  seq : UInt16
  odomX : F
  odomY : F
  odomTheta : F
  translationalVelocityMeasured : F
  translationalVelocityDesired : F
  translationalVelocityAdjusted : F
  rotationalVelocityMeasured : F
  rotationalVelocityDesired : F
  rotationalVelocityAdjusted : F

/- `d` and `f` are the texts of `%05d` and of `%.3f`. -/
def statusPrint {F : Type} (d : UInt16 → Text) (f : F → Text) (p : DifferentialDriveStatusPacket F) : Text :=
  "\x7bseq:".toList ++ d p.seq ++ ", x:".toList ++ f p.odomX ++ ", y:".toList ++ f p.odomY ++ ", t:".toList ++ f p.odomTheta ++
    ", tvm:".toList ++ f p.translationalVelocityMeasured ++ ", tvd:".toList ++ f p.translationalVelocityDesired ++
    ", tva:".toList ++ f p.translationalVelocityAdjusted ++ ", rvm:".toList ++ f p.rotationalVelocityMeasured ++
    ", rvd:".toList ++ f p.rotationalVelocityDesired ++ ", rva:".toList ++ f p.rotationalVelocityAdjusted ++ "\x7d".toList

/-! The readers. None is an exception. -/

/- `replace(c, "")`. -/
def remove (c : Char) (t : Text) : Text := t.filter (· ≠ c)

/- `dict[keyval[0]] = keyval[1]`. -/
def parseItem (dict : List (Text × Text)) (e : Text) : Option (List (Text × Text)) := do
  let keyval := split [':'] e
  some (assign dict (← keyval[0]?) (← keyval[1]?))

def bare (p : Text) : Text := remove ' ' (remove '}' (remove '{' p))

def parsepacket (p : Text) : Option (List (Text × Text)) := (split [','] (bare p)).foldlM parseItem []

structure Log where
  drivePackets : List (Text × Text)
  images : List (Text × Text)

def readLine (log : Log) (l : Text) : Option Log := do
  let linea := split [';', '\t'] (remove '\n' l)
  if (← linea[1]?) = "DRIVE".toList then
    some { log with drivePackets := log.drivePackets ++ [(← linea[0]?, ← linea[2]?)] }
  else if (← linea[1]?) = "FRAME".toList then
    some { log with images := assign log.images (← linea[0]?) ("./".toList ++ (← linea[2]?)) }
  else some log

def readLog (file : Text) : Option Log := (lines '\n' file).foldlM readLine ⟨[], []⟩

/-! One line. -/

theorem paddedDigit {n : Nat} {c : Char} (inside : c ∈ padded n) : c.isDigit = true := by
  rcases List.mem_append.mp inside with zero | digit
  · rw [(List.mem_replicate.mp zero).2]
    rfl
  · exact Nat.isDigit_of_mem_toDigits (by decide) (by decide) digit

theorem paddedFree {n : Nat} {c : Char} (other : c.isDigit = false) : c ∉ padded n := fun inside => by
  rw [paddedDigit inside] at other
  cases other

theorem kindFree (t : GenDataType) : ';' ∉ kind t ∧ '\n' ∉ kind t := by cases t <;> decide +kernel

theorem kindDrive (t : GenDataType) : kind t = "DRIVE".toList ↔ t = .drivePacket := by cases t <;> decide +kernel

theorem kindFrame (t : GenDataType) : kind t = "FRAME".toList ↔ t = .image := by cases t <;> decide +kernel

theorem removeAppend (c : Char) (s t : Text) : remove c (s ++ t) = remove c s ++ remove c t := List.filter_append ..

theorem removeFree {c : Char} {t : Text} (free : c ∉ t) : remove c t = t :=
  List.filter_eq_self.mpr fun other inside => by
    have apart : other ≠ c := fun same => free (same ▸ inside)
    simpa using apart

/- A text the log can carry. -/
def Loggable (t : Text) : Prop := '\n' ∉ t ∧ ¬ [';', '\t'] <:+: t

/- What reading a record adds. -/
def Log.add (log : Log) (l : Line) : Log :=
  match l.type with
  | .drivePacket => { log with drivePackets := log.drivePackets ++ [(padded l.ts, l.text)] }
  | .image => { log with images := assign log.images (padded l.ts) ("./".toList ++ l.text) }
  | _ => log

def lineBody (l : Line) : Text := padded l.ts ++ [';', '\t'] ++ (kind l.type ++ [';', '\t'] ++ l.text)

theorem lineTextBody (l : Line) : lineText l = lineBody l ++ ['\n'] := by
  have separator : ";\t".toList = [';', '\t'] := by decide +kernel
  have stop : "\n".toList = ['\n'] := by decide +kernel
  unfold lineText lineBody
  rw [separator, stop]
  simp only [List.append_assoc]

theorem lineBodyFree {l : Line} (loggable : Loggable l.text) : '\n' ∉ lineBody l := by
  have digits : '\n' ∉ padded l.ts := paddedFree (by decide)
  have kinds := (kindFree l.type).2
  simp [lineBody, digits, kinds, loggable.1]

theorem lineBodySplit {l : Line} (loggable : Loggable l.text) :
    split [';', '\t'] (lineBody l) = [padded l.ts, kind l.type, l.text] := by
  unfold lineBody
  rw [splitFirst ['\t'] (paddedFree (by decide)), splitFirst ['\t'] (kindFree l.type).1, splitWhole loggable.2]

theorem readLineAdds (log : Log) {l : Line} (loggable : Loggable l.text) : readLine log (lineText l) = some (log.add l) := by
  have body : remove '\n' (lineText l) = lineBody l := by
    rw [lineTextBody, removeAppend, removeFree (lineBodyFree loggable)]
    exact List.append_nil _
  unfold readLine Log.add
  rw [body, lineBodySplit loggable]
  simp only [List.getElem?_cons_zero, List.getElem?_cons_succ, Option.bind_eq_bind, Option.bind_some, kindDrive, kindFrame]
  obtain ⟨type, ts, text⟩ := l
  cases type <;> rfl

/-! The whole log. -/

theorem readLogAdds {records : List Line} (loggable : ∀ r ∈ records, Loggable r.text) :
    readLog (logText records) = some (records.foldl Log.add ⟨[], []⟩) := by
  have file : logText records = (records.map lineBody).flatMap fun x => x ++ ['\n'] := by
    unfold logText
    rw [List.flatMap_map]
    exact List.flatMap_congr fun r _ => lineTextBody r
  have bodies : ∀ x ∈ records.map lineBody, '\n' ∉ x := fun x among => by
    obtain ⟨r, inside, rfl⟩ := List.mem_map.mp among
    exact lineBodyFree (loggable r inside)
  unfold readLog
  rw [file, linesOf bodies, List.map_map]
  generalize (⟨[], []⟩ : Log) = log
  clear file bodies
  induction records generalizing log with
  | nil => rfl
  | cons r rest ih =>
    rw [List.map_cons, List.foldlM_cons, List.foldl_cons, Function.comp_apply, ← lineTextBody,
      readLineAdds log (loggable r List.mem_cons_self)]
    exact ih (fun s among => loggable s (List.mem_cons_of_mem r among)) (log.add r)

def drives (records : List Line) : List Line := records.filter fun r => r.type = .drivePacket

/- The FRAME records of a timestamp. -/
def framesAt (records : List Line) (stamp : Text) : List Line := records.filter fun r => r.type = .image ∧ padded r.ts = stamp

theorem addDrives (log : Log) (r : Line) :
    (log.add r).drivePackets = log.drivePackets ++ (drives [r]).map fun r => (padded r.ts, r.text) := by
  obtain ⟨type, ts, text⟩ := r
  cases type <;> simp [Log.add, drives]

theorem addImages (log : Log) (r : Line) (stamp : Text) : (log.add r).images.lookup stamp =
    if r.type = .image ∧ padded r.ts = stamp then some ("./".toList ++ r.text) else log.images.lookup stamp := by
  obtain ⟨type, ts, text⟩ := r
  cases type with
  | image =>
    have added : (log.add ⟨.image, ts, text⟩).images = assign log.images (padded ts) ("./".toList ++ text) := rfl
    rw [added, assignLookup]
    simp only [true_and, eq_comm]
  | _ => simp [Log.add]

theorem addedDrives (records : List Line) :
    (records.foldl Log.add ⟨[], []⟩).drivePackets = (drives records).map fun r => (padded r.ts, r.text) := by
  induction records using List.reverseRecOn with
  | nil => rfl
  | append_singleton records r ih =>
    rw [List.foldl_append, List.foldl_cons, List.foldl_nil, addDrives, ih, ← List.map_append, drives, drives, drives,
      List.filter_append]

theorem addedImages (records : List Line) (stamp : Text) : (records.foldl Log.add ⟨[], []⟩).images.lookup stamp =
    (framesAt records stamp).getLast?.map fun r => "./".toList ++ r.text := by
  induction records using List.reverseRecOn with
  | nil => rfl
  | append_singleton records r ih =>
    rw [List.foldl_append, List.foldl_cons, List.foldl_nil, addImages, ih, framesAt, framesAt, List.filter_append]
    by_cases own : r.type = .image ∧ padded r.ts = stamp
    · simp [own]
    · have others : [r].filter (fun r => decide (r.type = .image ∧ padded r.ts = stamp)) = [] := by simpa using own
      rw [if_neg own, others, List.append_nil]

/-! Packets. -/

/- A text without the characters of the format. -/
def Plain (t : Text) : Prop := ∀ c ∈ t, c ≠ '{' ∧ c ≠ '}' ∧ c ≠ ',' ∧ c ≠ ':' ∧ c ≠ ' ' ∧ c ≠ '\n'

instance : DecidablePred Plain := fun t => List.decidableBAll _ t

def item (pair : Text × Text) : Text := pair.1 ++ [':'] ++ pair.2

theorem parseItemAssigns (dict : List (Text × Text)) {pair : Text × Text} (key : ':' ∉ pair.1) (value : ':' ∉ pair.2) :
    parseItem dict (item pair) = some (assign dict pair.1 pair.2) := by
  have pieces : split [':'] (item pair) = [pair.1, pair.2] := by
    rw [item, splitFirst [] key, splitWhole (freeOfFirst value [])]
  unfold parseItem
  rw [pieces]
  rfl

/- The items of keys that are all different become the table. -/
theorem parseItems {pairs dict : List (Text × Text)} (plain : ∀ pair ∈ pairs, ':' ∉ pair.1 ∧ ':' ∉ pair.2)
    (different : ((dict ++ pairs).map Prod.fst).Nodup) : (pairs.map item).foldlM parseItem dict = some (dict ++ pairs) := by
  induction pairs generalizing dict with
  | nil => simp
  | cons pair rest ih =>
    have own := plain pair List.mem_cons_self
    have fresh : pair.1 ∉ dict.map Prod.fst := fun again => by
      rw [List.map_append, List.map_cons] at different
      exact (List.nodup_append.mp different).2.2 pair.1 again pair.1 List.mem_cons_self rfl
    rw [List.map_cons, List.foldlM_cons, parseItemAssigns dict own.1 own.2, assignNew fresh]
    refine (ih (fun p among => plain p (List.mem_cons_of_mem pair among)) ?_).trans ?_
    · rwa [List.append_assoc, List.singleton_append]
    · rw [List.append_assoc, List.singleton_append]

def statusPairs {F : Type} (d : UInt16 → Text) (f : F → Text) (p : DifferentialDriveStatusPacket F) : List (Text × Text) :=
  [("seq".toList, d p.seq), ("x".toList, f p.odomX), ("y".toList, f p.odomY), ("t".toList, f p.odomTheta),
    ("tvm".toList, f p.translationalVelocityMeasured), ("tvd".toList, f p.translationalVelocityDesired),
    ("tva".toList, f p.translationalVelocityAdjusted), ("rvm".toList, f p.rotationalVelocityMeasured),
    ("rvd".toList, f p.rotationalVelocityDesired), ("rva".toList, f p.rotationalVelocityAdjusted)]

theorem bareAppend (s t : Text) : bare (s ++ t) = bare s ++ bare t := by
  rw [bare, removeAppend, removeAppend, removeAppend]
  rfl

theorem barePlain {t : Text} (plain : Plain t) : bare t = t := by
  have open_ : '{' ∉ t := fun inside => (plain '{' inside).1 rfl
  have close : '}' ∉ t := fun inside => (plain '}' inside).2.1 rfl
  have blank : ' ' ∉ t := fun inside => (plain ' ' inside).2.2.2.2.1 rfl
  rw [bare, removeFree open_, removeFree close, removeFree blank]

/- Braces and blanks away, the items stand between commas. -/
theorem statusBare {F : Type} {d : UInt16 → Text} {f : F → Text} {p : DifferentialDriveStatusPacket F}
    (plain : ∀ pair ∈ statusPairs d f p, Plain pair.2) :
    bare (statusPrint d f p) = [','].intercalate ((statusPairs d f p).map item) := by
  have values : ∀ pair ∈ statusPairs d f p, bare pair.2 = pair.2 := fun pair among => barePlain (plain pair among)
  simp only [statusPairs, List.forall_mem_cons] at values
  unfold statusPrint
  simp only [bareAppend, values]
  simp [bare, remove, statusPairs, item, List.intercalate_cons_cons, List.intercalate_singleton]

theorem statusKeys {F : Type} (d : UInt16 → Text) (f : F → Text) (p : DifferentialDriveStatusPacket F) :
    ∀ key ∈ (statusPairs d f p).map Prod.fst, ',' ∉ key ∧ ':' ∉ key := by
  have keys : (statusPairs d f p).map Prod.fst = ["seq", "x", "y", "t", "tvm", "tvd", "tva", "rvm", "rvd", "rva"].map String.toList :=
    rfl
  rw [keys]
  decide +kernel

theorem statusParses {F : Type} {d : UInt16 → Text} {f : F → Text} {p : DifferentialDriveStatusPacket F}
    (plain : ∀ pair ∈ statusPairs d f p, Plain pair.2) : parsepacket (statusPrint d f p) = some (statusPairs d f p) := by
  have keys : ∀ pair ∈ statusPairs d f p, ',' ∉ pair.1 ∧ ':' ∉ pair.1 := fun pair among =>
    statusKeys d f p pair.1 (List.mem_map_of_mem among)
  have items : ∀ x ∈ (statusPairs d f p).map item, ',' ∉ x := fun x among => by
    obtain ⟨pair, inside, rfl⟩ := List.mem_map.mp among
    have value : ',' ∉ pair.2 := fun comma => (plain pair inside ',' comma).2.2.1 rfl
    simp [item, (keys pair inside).1, value]
  have pieces : split [','] ([','].intercalate ((statusPairs d f p).map item)) = (statusPairs d f p).map item :=
    splitIntercalate [] _ _ items
  have different : (([] ++ statusPairs d f p).map Prod.fst).Nodup := by
    have names : (["seq", "x", "y", "t", "tvm", "tvd", "tva", "rvm", "rvd", "rva"].map String.toList).Nodup := by decide +kernel
    exact names
  unfold parsepacket
  rw [statusBare plain, pieces]
  exact parseItems (fun pair among => ⟨(keys pair among).2, fun colon => (plain pair among ':' colon).2.2.2.1 rfl⟩) different

/- The readers get back what the writer has written. -/
theorem logReadsBack :
    (∀ records : List Line, (∀ r ∈ records, Loggable r.text) → ∃ log, readLog (logText records) = some log ∧
      log.drivePackets = (drives records).map (fun r => (padded r.ts, r.text)) ∧
      ∀ stamp, log.images.lookup stamp = (framesAt records stamp).getLast?.map fun r => "./".toList ++ r.text) ∧
    ∀ {F : Type} (d : UInt16 → Text) (f : F → Text) (p : DifferentialDriveStatusPacket F),
      (∀ pair ∈ statusPairs d f p, Plain pair.2) → parsepacket (statusPrint d f p) = some (statusPairs d f p) := by
  refine ⟨fun records loggable => ⟨_, readLogAdds loggable, addedDrives records, addedImages records⟩, fun d f p plain => ?_⟩
  exact statusParses plain

def benchStatus : DifferentialDriveStatusPacket Nat := ⟨42, 1, 2, 3, 4, 5, 6, 7, 8, 9⟩

/- A frame between two packets of the drive, and such a packet. -/
theorem frameBetween :
    (∃ log, readLog (logText [⟨.drivePacket, 0, ['a']⟩, ⟨.image, 1, ['b']⟩, ⟨.drivePacket, 1, ['c']⟩]) = some log ∧
      log.drivePackets = [("00000".toList, ['a']), ("00001".toList, ['c'])] ∧
      log.images.lookup "00001".toList = some "./b".toList) ∧
    parsepacket (statusPrint (fun seq => padded seq.toNat) (Nat.toDigits 10) benchStatus) =
      some [("seq".toList, "00042".toList), ("x".toList, ['1']), ("y".toList, ['2']), ("t".toList, ['3']),
        ("tvm".toList, ['4']), ("tvd".toList, ['5']), ("tva".toList, ['6']), ("rvm".toList, ['7']), ("rvd".toList, ['8']),
        ("rva".toList, ['9'])] := by
  obtain ⟨log, read, drives, images⟩ :=
    logReadsBack.1 [⟨.drivePacket, 0, ['a']⟩, ⟨.image, 1, ['b']⟩, ⟨.drivePacket, 1, ['c']⟩] (by
      simp only [List.forall_mem_cons, Loggable]
      decide +kernel)
  have parsed := logReadsBack.2 (fun seq => padded seq.toNat) (Nat.toDigits 10) benchStatus (by decide +kernel)
  exact ⟨⟨log, read, drives.trans (by decide +kernel), (images _).trans (by decide +kernel)⟩, parsed.trans (by decide +kernel)⟩

end OrazioLogger.Visualizer
