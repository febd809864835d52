import HwrunOs.Audit.Append
import HwrunOs.Audit.Retained

/-!
# Numbers across restarts

The counter of a log lives in memory and is read back from the newest file that is not empty.
Whatever call of a rotation fails, and wherever the process dies, that file still holds the last
number given out, unless the main file was truncated or a line was torn.
-/

namespace HwrunOs.Audit

open HwrunOs.Bytes HwrunOs.Runs

/-! ## The newest file -/

/-- The newest file that is not empty among the first ones. -/
def newest (segs : Segs) (count : Nat) : Option CString :=
  (List.range count).findSome? fun index => (segs index).filter fun file => !file.isEmpty

/-- A file ends with a whole line, or is empty. -/
def lineEnded (file : CString) : Bool := file.getLast?.all (· == newline)

/-- The main file is the newest one when it is not empty. -/
theorem newest_base {segs : Segs} {base : CString} (present : segs 0 = some base)
    (filled : base ≠ []) {count : Nat} (some_ : 1 ≤ count) : newest segs count = some base := by
  obtain ⟨rest, rfl⟩ : ∃ rest, count = rest + 1 := ⟨count - 1, by omega⟩
  rw [newest, List.range_succ_eq_map, List.findSome?_cons, present]
  simp [Option.filter, filled]

/-- The next segment is the newest file when the main file is missing or empty. -/
theorem newest_moved {segs : Segs} {base : CString} (empty : (segs 0).getD [] = [])
    (present : segs 1 = some base) (filled : base ≠ []) {count : Nat} (several : 2 ≤ count) :
    newest segs count = some base := by
  obtain ⟨rest, rfl⟩ : ∃ rest, count = rest + 1 + 1 := ⟨count - 2, by omega⟩
  have skipped : (segs 0).filter (fun file => !file.isEmpty) = none := by
    cases shape : segs 0 with
    | none => rfl
    | some file =>
      rw [shape] at empty
      simp only [Option.getD_some] at empty
      simp [Option.filter, empty]
  rw [newest, List.range_succ_eq_map, List.findSome?_cons, skipped, List.range_succ_eq_map]
  simp [Option.filter, present, filled]

/-- Files that are missing or empty alike leave the newest file the same. -/
theorem newest_congr {segs other : Segs} (same : ∀ index, (segs index).getD [] =
    (other index).getD []) (count : Nat) : newest segs count = newest other count := by
  have files : ∀ index, (segs index).filter (fun file => !file.isEmpty) =
      (other index).filter fun file => !file.isEmpty := by
    intro index
    have equal := same index
    cases first : segs index with
    | none =>
      cases second : other index with
      | none => rfl
      | some file =>
        rw [first, second] at equal
        simp only [Option.getD_none, Option.getD_some] at equal
        simp [Option.filter, ← equal]
    | some file =>
      cases second : other index with
      | none =>
        rw [first, second] at equal
        simp only [Option.getD_none, Option.getD_some] at equal
        simp [Option.filter, equal]
      | some text =>
        rw [first, second] at equal
        simp only [Option.getD_some] at equal
        rw [equal]
  simp only [newest, files]

/-! ## Numbers of a file -/

/-- Behind a whole line the rest of a file is read on its own. -/
theorem fileEvents_append {base : CString} (ended : lineEnded base = true) (rest : CString) :
    fileEvents (base ++ rest) = fileEvents base ++ fileEvents rest := by
  cases base using List.reverseRecOn with
  | nil => rfl
  | append_singleton front byte =>
    obtain rfl : byte = newline := by simpa [lineEnded] using ended
    rw [fileEvents, fileEvents, fileEvents, List.append_assoc, List.singleton_append, fgetsLines,
      fgetsFrom_append, List.filterMap_append]
    rfl

/-- A bound of the numbers of a file bounds its highest number. -/
theorem lastSeq_le {file : CString} {bound : UInt64}
    (all : ∀ event ∈ fileEvents file, event.seq ≤ bound) : lastSeq file ≤ bound := by
  have below : ∀ (part : List Event) (start : UInt64), start ≤ bound →
      (∀ event ∈ part, event.seq ≤ bound) →
      part.foldl (fun last event => if last < event.seq then event.seq else last) start ≤
        bound := by
    intro part
    induction part with
    | nil => exact fun start low _ => low
    | cons first rest ih =>
      intro start low all
      rw [List.foldl_cons]
      refine ih _ ?_ fun event found => all event (List.mem_cons_of_mem _ found)
      split
      · exact all first List.mem_cons_self
      · exact low
  exact below _ 0 (UInt64.zero_le) all

/-- Adding to a file that ends with a whole line keeps its numbers. -/
theorem lastSeq_append {base : CString} (ended : lineEnded base = true) (rest : CString) :
    lastSeq base ≤ lastSeq (base ++ rest) := by
  apply lastSeq_le
  intro event found
  apply seq_le_lastSeq
  rw [fileEvents_append ended]
  exact List.mem_append_left _ found

/-- A line on its own shows its number. -/
theorem lastSeq_line {base : CString} (ended : lineEnded base = true) {event : Event}
    (fits : event.Fits) : event.seq ≤ lastSeq (base ++ (lineBody event ++ [newline])) := by
  by_cases numbered : event.seq = 0
  · rw [numbered]
    exact UInt64.zero_le
  · have stored : ∀ other ∈ [event], other.Stored := by
      intro other found
      rw [List.mem_singleton.mp found]
      exact ⟨fits, numbered⟩
    have text : segText [event] = lineBody event ++ [newline] := by simp [segText]
    apply seq_le_lastSeq
    rw [fileEvents_append ended, ← text, fileEvents_segText stored]
    simp

/-! ## Rotation with any failures -/

/-- Moving the files up, the main file stays or becomes the next segment, wherever it fails. -/
theorem shiftUp_cases (host : Host) (count : Nat) {segs : Segs} {base : CString}
    (present : segs 0 = some base) :
    ((shiftUp host (count + 1) segs).1 0 = some base ∧ (shiftUp host (count + 1) segs).2 ≠ 0) ∨
    ((shiftUp host (count + 1) segs).1 0 = none ∧
      (shiftUp host (count + 1) segs).1 1 = some base ∧ (shiftUp host (count + 1) segs).2 = 0) := by
  induction count generalizing segs with
  | zero =>
    rw [shiftUp]
    split
    · rename_i failed
      exact .inl ⟨present, failed⟩
    · right
      simp [shiftUp, renameSeg, present]
  | succ count ih =>
    rw [shiftUp]
    split
    · rename_i failed
      exact .inl ⟨present, failed⟩
    · apply ih
      rw [renameSeg]
      cases segs (count + 1) with
      | none => exact present
      | some file => simp [present]

/-- Dropping old files leaves the others alone, wherever it fails. -/
theorem dropOld_other (host : Host) (indices : List Nat) (segs : Segs) {index : Nat}
    (kept : index ∉ indices) : (dropOld host indices segs).1 index = segs index := by
  induction indices generalizing segs with
  | nil => rfl
  | cons first rest ih =>
    simp only [List.mem_cons, not_or] at kept
    rw [dropOld]
    split
    · rfl
    · rw [ih _ kept.2, Function.update_of_ne kept.1]

/-- Wherever a rotation that keeps two or more segments fails, the main file is still there or
is the next segment; it is the next segment when the rotation succeeds. -/
theorem rotate_keeps (host : Host) {maxFiles : Nat} (several : 1 < maxFiles) {segs : Segs}
    {base : CString} (present : segs 0 = some base) :
    ((rotate host maxFiles segs).1 0 = some base ∧ (rotate host maxFiles segs).2 ≠ 0) ∨
    ((rotate host maxFiles segs).1 0 = none ∧ (rotate host maxFiles segs).1 1 = some base) := by
  obtain ⟨count, rfl⟩ : ∃ count, maxFiles = count + 2 := ⟨maxFiles - 2, by omega⟩
  have others : 0 ∉ List.range' (count + 2) (segMax - (count + 2)) ∧
      1 ∉ List.range' (count + 2) (segMax - (count + 2)) := by
    simp only [List.mem_range'_1]
    omega
  rw [rotate, if_neg (by omega)]
  dsimp only
  rcases shiftUp_cases host count present with ⟨stays, failed⟩ | ⟨gone, moved, done⟩
  · rw [show count + 2 - 1 = count + 1 by omega, if_pos failed]
    exact .inl ⟨stays, failed⟩
  · rw [show count + 2 - 1 = count + 1 by omega, done, if_neg (by simp)]
    right
    rw [dropOld_other _ _ _ others.1, dropOld_other _ _ _ others.2]
    exact ⟨gone, moved⟩

/-! ## What an append does to the files -/

/-- The bytes that `fwrite` takes. -/
def takenLine (host : Host) (line : CString) : CString :=
  match host.fwrite with
  | none => line
  | some count => line.take count

/-- The bytes that reach the file. -/
def reachedLine (host : Host) (line : CString) : CString :=
  match host.fclose with
  | none => takenLine host line
  | some count => (takenLine host line).take count

/-- The append opens and measures the main file. -/
def opensFile (event : Event) (host : Host) : Bool :=
  !event.subject.isEmpty && !event.action.isEmpty &&
    decide (host.mkdir = 0 ∧ host.fopen = 0 ∧ host.fstat = 0)

/-- The append rotates the files. -/
def startsRotation (store : Store) (event : Event) (host : Host) : Bool :=
  opensFile event host && rotates store event host.now

/-- The append truncates the main file: its rotation keeps one segment only. -/
def truncates (store : Store) (event : Event) (host : Host) : Bool :=
  startsRotation store event host && decide (store.maxFiles ≤ 1 ∧ host.move 0 = 0)

/-- The append comes to write its line. -/
def comesToWrite (store : Store) (event : Event) (host : Host) : Bool :=
  opensFile event host && (!rotates store event host.now ||
    decide ((rotate host store.maxFiles (openBase (setDefaultDir store).segs)).2 = 0 ∧
      host.reopen = 0))

/-- The main file that the line is written to. -/
def fileWritten (store : Store) (event : Event) (host : Host) : CString :=
  if rotates store event host.now then [] else ((setDefaultDir store).segs 0).getD []

/-- What the append leaves for the next start: with a whole line on its own the newest file
shows the last number; without one it shows what it did before, unless the main file was
truncated, a line reported as written is not there, or a part of a line begins a file or is
behind another part. -/
def settledAfter (store : Store) (event : Event) (host : Host) (died before : Bool) : Bool :=
  if comesToWrite store event host then
    let line := appendedLine store event host.now
    let base := fileWritten store event host
    let reached := reachedLine host line
    if reached = line then lineEnded base
    else before && !truncates store event host &&
      (died || (takenLine host line).length != line.length) &&
      (reached.isEmpty || (!base.isEmpty && lineEnded base))
  else before && !truncates store event host

/-! ## Runs -/

/-- A store, the numbers it gave out by directory, the oldest first, and the directories whose
newest file shows the last of them. -/
structure Ledger where
  /-- The store. -/
  store : Store
  /-- Directory and number of each successful append. -/
  given : List (CString × UInt64)
  /-- Directories as the appends left them. -/
  settled : CString → Bool

/-- A step of a run. -/
inductive Call where
  /-- `append`, with the outcome of its calls. -/
  | append (event : Event) (host : Host)
  /-- `append` of a process that dies where the host fails, or before it returns. -/
  | die (event : Event) (host : Host)
  /-- `hw_audit_configure`. -/
  | configure (key value : Option CString)
  /-- The process ends and another one starts. -/
  | restart

/-- The store of a new process over the same files. -/
def reborn (store : Store) : Store := { storeInit [] with disk := store.disk }

/-- The directories settled after an append. -/
def Ledger.settledBy (ledger : Ledger) (event : Event) (host : Host) (died : Bool) :
    CString → Bool :=
  Function.update ledger.settled (setDefaultDir ledger.store).dir
    (settledAfter ledger.store event host died (ledger.settled (setDefaultDir ledger.store).dir))

/-- One step of a run. -/
def ledgerStep (ledger : Ledger) : Call → Ledger
  | .append event host =>
    match opsAppend ledger.store event host with
    | (store, .ok seq) =>
      ⟨store, ledger.given ++ [(store.dir, seq)], ledger.settledBy event host false⟩
    | (store, .error _) => ⟨store, ledger.given, ledger.settledBy event host false⟩
  | .die event host =>
    ⟨reborn (opsAppend ledger.store event host).1, ledger.given, ledger.settledBy event host true⟩
  | .configure key value => { ledger with store := (configure ledger.store key value).1 }
  | .restart => { ledger with store := reborn ledger.store }

/-- A first process over any files. -/
def ledgerInit (disk : CString → Segs) : Ledger :=
  ⟨{ storeInit [] with disk := disk }, [], fun _ => true⟩

/-- The numbers given out in a directory, the oldest first. -/
def Ledger.numbers (ledger : Ledger) (dir : CString) : List UInt64 :=
  (ledger.given.filter fun entry => entry.1 == dir).map Prod.snd

/-- In every directory the numbers rise. -/
def Rising (ledger : Ledger) : Prop := ∀ dir, (ledger.numbers dir).Pairwise (· < ·)

/-- The files show the last number to a process that reads it from them: the newest file is among
those it looks at, the directory is settled and the last number is not reached. -/
structure Shown (ledger : Ledger) : Prop where
  /-- The newest file has an index below the limit. -/
  visible : newest (setDefaultDir ledger.store).segs ledger.store.maxFiles =
    newest (setDefaultDir ledger.store).segs segMax
  /-- The directory is settled. -/
  settled : ledger.settled (setDefaultDir ledger.store).dir = true
  /-- A number is left. -/
  room : ∀ file ∈ newest (setDefaultDir ledger.store).segs ledger.store.maxFiles,
    lastSeq file + 1 ≠ 0

instance (ledger : Ledger) : Decidable (Shown ledger) :=
  decidable_of_iff (newest (setDefaultDir ledger.store).segs ledger.store.maxFiles =
      newest (setDefaultDir ledger.store).segs segMax ∧
    ledger.settled (setDefaultDir ledger.store).dir = true ∧
    ∀ file ∈ newest (setDefaultDir ledger.store).segs ledger.store.maxFiles,
      lastSeq file + 1 ≠ 0)
    ⟨fun ⟨visible, settled, room⟩ => ⟨visible, settled, room⟩,
      fun ⟨visible, settled, room⟩ => ⟨visible, settled, room⟩⟩

/-- The condition of an append, also of one that is cut short: where it reads the next number
from the files of a directory with numbers given out, the files show the last one. -/
def ReadsShown (ledger : Ledger) : Call → Prop
  | .append event host | .die event host =>
    event.Accepted → host.mkdir = 0 → ledger.store.nextSeq = 0 →
      ledger.numbers (setDefaultDir ledger.store).dir ≠ [] → Shown ledger
  | _ => True

instance (ledger : Ledger) : (call : Call) → Decidable (ReadsShown ledger call)
  | .append .. | .die .. => inferInstanceAs (Decidable (_ → _ → _ → _ → _))
  | .configure .. | .restart => inferInstanceAs (Decidable True)

/-! ## One append, whatever fails -/

/-- Writing a line to the main file. -/
theorem writeLine_eq (store : Store) (host : Host) (segs : Segs) (line : CString) :
    writeLine (store.setSegs segs) host line =
      (let after := Function.update segs 0 (some ((segs 0).getD [] ++ reachedLine host line))
      if (takenLine host line).length ≠ line.length then (store.setSegs after, .error eio)
      else ({ store.setSegs after with nextSeq := store.nextSeq + 1 }, .ok store.nextSeq)) := by
  simp only [writeLine, segs_setSegs, setSegs_setSegs]
  rfl

/-- A main file that has to be rotated is not empty. -/
theorem needsRotation_base {store : Store} {line : CString}
    (rotated : needsRotation store line = true) :
    ∃ base, store.segs 0 = some base ∧ base ≠ [] := by
  simp only [needsRotation, decide_eq_true_eq] at rotated
  cases shape : store.segs 0 with
  | none =>
    rw [shape] at rotated
    exact absurd rotated.1 (by simp)
  | some base =>
    rw [shape] at rotated
    refine ⟨base, rfl, ?_⟩
    rintro rfl
    exact absurd rotated.1 (by simp)

/-- The files of an append: those of the directory before, and after. -/
structure FilesAfter (store : Store) (event : Event) (host : Host) (segs : Segs) : Prop where
  /-- Without a write the newest file is the same, unless the main file was truncated. -/
  kept : comesToWrite store event host = false → truncates store event host = false →
    newest segs segMax = newest (setDefaultDir store).segs segMax
  /-- With a write the bytes that reach the file are behind what it held, and before them the
  newest file is the same, unless the main file was truncated. -/
  written : comesToWrite store event host = true →
    ∃ target : Segs,
      segs = Function.update target 0 (some (fileWritten store event host ++
        reachedLine host (appendedLine store event host.now))) ∧
      (truncates store event host = false →
        newest (Function.update target 0 (some (fileWritten store event host))) segMax =
          newest (setDefaultDir store).segs segMax)

/-- The result of an append that is not rejected and has its directory. -/
structure Appended (store : Store) (event : Event) (host : Host)
    (result : Store × Except Int UInt64) (segs : Segs) : Prop where
  /-- What the files hold. -/
  files : FilesAfter store event host segs
  /-- The store and the number, or an error with the counter left as it is. -/
  outcome :
    (result.1 = { (appendCopy store event host.now).1.setSegs segs with
        nextSeq := (appendCopy store event host.now).1.nextSeq + 1 } ∧
      result.2 = .ok (appendCopy store event host.now).1.nextSeq ∧
      comesToWrite store event host = true ∧
      (takenLine host (appendedLine store event host.now)).length =
        (appendedLine store event host.now).length) ∨
    (result.1 = (appendCopy store event host.now).1.setSegs segs ∧
      ∃ error, result.2 = .error error)

/-- The segments of the copy are those of the directory. -/
theorem appendCopy_segs (store : Store) (event : Event) (now : Int64) :
    (appendCopy store event now).1.segs = (setDefaultDir store).segs := seedSeq_segs _

/-- The limit is the same. -/
theorem appendCopy_maxFiles (store : Store) (event : Event) (now : Int64) :
    (appendCopy store event now).1.maxFiles = store.maxFiles := by
  rw [appendCopy]
  simp

/-- The directory is the same. -/
theorem appendCopy_dir (store : Store) (event : Event) (now : Int64) :
    (appendCopy store event now).1.dir = (setDefaultDir store).dir := by
  rw [appendCopy]
  simp

/-- Opening the main file leaves the newest file. -/
theorem newest_openBase (segs : Segs) (count : Nat) :
    newest (openBase segs) count = newest segs count := by
  apply newest_congr
  intro index
  by_cases base : index = 0
  · rw [base, openBase, Function.update_self, Option.getD_some]
  · rw [openBase, Function.update_of_ne base]

/-- The segments of the store with its own segments. -/
theorem setSegs_self (store : Store) : store.setSegs store.segs = store := by
  rw [Store.setSegs, Store.segs, Function.update_eq_self]

/-- An append that does not rotate leaves the newest file until it writes. -/
theorem filesAfter_plain {store : Store} {event : Event} {host : Host}
    (plain : rotates store event host.now = false) :
    newest (Function.update (openBase (setDefaultDir store).segs) 0
        (some (fileWritten store event host))) segMax =
      newest (setDefaultDir store).segs segMax := by
  rw [fileWritten, plain]
  apply newest_congr
  intro index
  by_cases base : index = 0
  · simp [base]
  · simp [base, openBase]

/-- Wherever a rotation stops that does not truncate, the newest file is the same. -/
theorem newest_rotate (host : Host) {segs : Segs} {base : CString} (present : segs 0 = some base)
    (filled : base ≠ []) (maxFiles : Nat) (whole : ¬ (maxFiles ≤ 1 ∧ host.move 0 = 0)) :
    newest (rotate host maxFiles segs).1 segMax = newest segs segMax := by
  rw [newest_base present filled (by decide)]
  by_cases one : maxFiles ≤ 1
  · have failed : host.move 0 ≠ 0 := fun done => whole ⟨one, done⟩
    rw [rotate, if_pos one, if_pos failed]
    exact newest_base present filled (by decide)
  · rcases rotate_keeps host (Nat.lt_of_not_le one) present with ⟨stays, -⟩ | ⟨gone, moved⟩
    · exact newest_base stays filled (by decide)
    · exact newest_moved (by rw [gone]; rfl) moved filled (by decide)

/-- After a rotation that succeeds and keeps several segments, the main file is missing. -/
theorem rotate_done (host : Host) {segs : Segs} {base : CString} (present : segs 0 = some base)
    (maxFiles : Nat) (done : (rotate host maxFiles segs).2 = 0) :
    ((rotate host maxFiles segs).1 0).getD [] = [] := by
  by_cases one : maxFiles ≤ 1
  · have moved : ¬ host.move 0 ≠ 0 := by
      intro failed
      rw [rotate, if_pos one, if_pos failed] at done
      exact failed done
    rw [rotate, if_pos one, if_neg moved]
    simp [present]
  · rcases rotate_keeps host (Nat.lt_of_not_le one) present with ⟨-, failed⟩ | ⟨gone, -⟩
    · exact absurd done failed
    · rw [gone]
      rfl

/-- An append that comes to write its line, whatever the files are that it writes to. -/
theorem writeLine_appended {store : Store} {event : Event} {host : Host} (target : Segs)
    (writes : comesToWrite store event host = true)
    (held : (target 0).getD [] = fileWritten store event host)
    (kept : truncates store event host = false →
      newest (Function.update target 0 (some (fileWritten store event host))) segMax =
        newest (setDefaultDir store).segs segMax) :
    ∃ segs, Appended store event host
      (writeLine ((appendCopy store event host.now).1.setSegs target) host
        (appendedLine store event host.now)) segs := by
  refine ⟨Function.update target 0 (some (fileWritten store event host ++
    reachedLine host (appendedLine store event host.now))), ⟨?_, ?_⟩, ?_⟩
  · intro other
    rw [writes] at other
    cases other
  · exact fun _ => ⟨target, rfl, kept⟩
  · rw [writeLine_eq]
    dsimp only
    rw [held]
    split
    · exact .inr ⟨rfl, _, rfl⟩
    · rename_i whole
      exact .inl ⟨rfl, rfl, writes, not_not.mp whole⟩

/-- An append that is not rejected and has its directory works on its line. -/
theorem opsAppend_lined {store : Store} {event : Event} (accepted : event.Accepted) {host : Host}
    (made : host.mkdir = 0) :
    opsAppend store event host = appendLine (appendCopy store event host.now).1 host
      (appendedLine store event host.now) := by
  have fits : (appendCopy store event host.now).2.Fits := stored_fits _ _ _
  have checked : ¬ (event.subject = [] ∨ event.action = []) := not_or.mpr accepted
  rw [opsAppend, if_neg checked, if_neg (by simp [made])]
  dsimp only
  rw [fmtLine_fits fits]
  rfl

/-- When the main file is opened and measured. -/
theorem opensFile_iff {event : Event} (accepted : event.Accepted) {host : Host}
    (made : host.mkdir = 0) : opensFile event host = true ↔ host.fopen = 0 ∧ host.fstat = 0 := by
  simp [opensFile, accepted.1, accepted.2, made]

/-- An append that cannot open or measure the main file leaves its bytes. -/
theorem opsAppend_shut {store : Store} {event : Event} (accepted : event.Accepted) {host : Host}
    (made : host.mkdir = 0) (shut : opensFile event host = false) :
    ∃ segs error, (segs = (setDefaultDir store).segs ∨ segs = openBase (setDefaultDir store).segs) ∧
      opsAppend store event host =
        ((appendCopy store event host.now).1.setSegs segs, .error error) := by
  have segs := appendCopy_segs store event host.now
  rw [opsAppend_lined accepted made, appendLine]
  by_cases opened : host.fopen ≠ 0
  · refine ⟨(setDefaultDir store).segs, host.fopen, .inl rfl, ?_⟩
    rw [if_pos opened, ← segs, setSegs_self]
  · have measured : host.fstat ≠ 0 := by
      intro done
      have open_ := (opensFile_iff accepted made).mpr ⟨not_not.mp opened, done⟩
      rw [shut] at open_
      cases open_
    refine ⟨openBase (setDefaultDir store).segs, host.fstat, .inr rfl, ?_⟩
    rw [if_neg opened, segs]
    dsimp only
    rw [if_pos measured]

/-- An append that opens and measures the main file rotates the files where that is due, and
writes unless the rotation or the file after it fails. -/
theorem opsAppend_opened {store : Store} {event : Event} {host : Host}
    (opened : opensFile event host = true) :
    opsAppend store event host =
      if rotates store event host.now then
        let rotated := rotate host store.maxFiles (setDefaultDir store).segs
        if rotated.2 ≠ 0 then ((appendCopy store event host.now).1.setSegs rotated.1,
          .error rotated.2)
        else if host.reopen ≠ 0 then ((appendCopy store event host.now).1.setSegs rotated.1,
          .error host.reopen)
        else writeLine ((appendCopy store event host.now).1.setSegs (openBase rotated.1)) host
          (appendedLine store event host.now)
      else writeLine ((appendCopy store event host.now).1.setSegs
        (openBase (setDefaultDir store).segs)) host (appendedLine store event host.now) := by
  have calls := opened
  simp only [opensFile, Bool.and_eq_true, Bool.not_eq_true', List.isEmpty_eq_false_iff,
    decide_eq_true_eq] at calls
  obtain ⟨accepted, made, open_, measured⟩ := calls
  have segs := appendCopy_segs store event host.now
  have limit := appendCopy_maxFiles store event host.now
  have rotating := rotates_eq store event host.now
  have rotation : needsRotation ((appendCopy store event host.now).1.setSegs
      (openBase (setDefaultDir store).segs)) (appendedLine store event host.now) =
        rotates store event host.now := by
    rw [rotating, ← segs, needsRotation_openBase]
  rw [opsAppend_lined accepted made, appendLine, if_neg (by simp [open_]), segs]
  dsimp only
  rw [if_neg (by simp [measured]), rotation]
  by_cases rotated : rotates store event host.now = true
  · obtain ⟨base, present, filled⟩ := needsRotation_base (rotating ▸ rotated)
    rw [segs] at present
    have limits : ((appendCopy store event host.now).1.setSegs
        (setDefaultDir store).segs).maxFiles = store.maxFiles := limit
    rw [if_pos rotated, if_pos rotated, openBase_eq present, segs_setSegs, limits, setSegs_setSegs,
      segs_setSegs, setSegs_setSegs]
  · rw [if_neg rotated, if_neg rotated]
/-- What an append does that is not rejected and has its directory, whatever fails. -/
theorem opsAppend_spec {store : Store} {event : Event} (accepted : event.Accepted) {host : Host}
    (made : host.mkdir = 0) :
    ∃ segs, Appended store event host (opsAppend store event host) segs := by
  by_cases shut : opensFile event host = false
  · obtain ⟨segs, error, kept, ends⟩ := opsAppend_shut accepted made shut
    have unwritten : ¬ comesToWrite store event host = true := by
      rw [comesToWrite, shut]
      exact Bool.false_ne_true
    refine ⟨segs, ⟨fun _ _ => ?_, fun writes => absurd writes unwritten⟩, .inr ?_⟩
    · rcases kept with rfl | rfl
      · rfl
      · exact newest_openBase _ _
    · rw [ends]
      exact ⟨rfl, error, rfl⟩
  have open_ : opensFile event host = true := by simpa using shut
  rw [opsAppend_opened open_]
  by_cases rotated : rotates store event host.now = true
  · obtain ⟨base, present, filled⟩ :=
      needsRotation_base ((rotates_eq store event host.now) ▸ rotated)
    rw [appendCopy_segs] at present
    have same : openBase (setDefaultDir store).segs = (setDefaultDir store).segs :=
      openBase_eq present
    have cut : truncates store event host = decide (store.maxFiles ≤ 1 ∧ host.move 0 = 0) := by
      rw [truncates, startsRotation, open_, rotated]
      rfl
    have unchanged (intact : truncates store event host = false) :
        newest (rotate host store.maxFiles (setDefaultDir store).segs).1 segMax =
          newest (setDefaultDir store).segs segMax := by
      rw [cut, decide_eq_false_iff_not] at intact
      exact newest_rotate host present filled store.maxFiles intact
    have comes : comesToWrite store event host = decide
        ((rotate host store.maxFiles (setDefaultDir store).segs).2 = 0 ∧ host.reopen = 0) := by
      rw [comesToWrite, open_, rotated, same]
      rfl
    rw [if_pos rotated]
    dsimp only
    by_cases failed : (rotate host store.maxFiles (setDefaultDir store).segs).2 ≠ 0
    · rw [if_pos failed]
      refine ⟨_, ⟨fun _ => unchanged, ?_⟩, .inr ⟨rfl, _, rfl⟩⟩
      intro writes
      rw [comes, decide_eq_true_eq] at writes
      exact absurd writes.1 failed
    rw [if_neg failed]
    by_cases reopened : host.reopen ≠ 0
    · rw [if_pos reopened]
      refine ⟨_, ⟨fun _ => unchanged, ?_⟩, .inr ⟨rfl, _, rfl⟩⟩
      intro writes
      rw [comes, decide_eq_true_eq] at writes
      exact absurd writes.2 reopened
    rw [if_neg reopened]
    have done := not_not.mp failed
    have empty := rotate_done host present store.maxFiles done
    have begun : fileWritten store event host = [] := by rw [fileWritten, if_pos rotated]
    have writes : comesToWrite store event host = true := by
      rw [comes, decide_eq_true_eq]
      exact ⟨done, not_not.mp reopened⟩
    refine writeLine_appended _ writes ?_ ?_
    · rw [begun, openBase, Function.update_self, Option.getD_some, empty]
    · intro intact
      rw [← unchanged intact, begun]
      apply newest_congr
      intro index
      by_cases first : index = 0
      · rw [first, Function.update_self, empty, Option.getD_some]
      · rw [Function.update_of_ne first, openBase, Function.update_of_ne first]
  · rw [if_neg rotated]
    rw [Bool.not_eq_true] at rotated
    have writes : comesToWrite store event host = true := by
      rw [comesToWrite, open_, rotated]
      rfl
    refine writeLine_appended _ writes ?_ fun _ => filesAfter_plain rotated
    rw [fileWritten, rotated, openBase, Function.update_self]
    rfl

/-! ## What every run keeps -/

/-- The files of a directory show a number: the newest file has one that is no less. -/
def Shows (segs : Segs) (number : UInt64) : Prop :=
  ∃ file, newest segs segMax = some file ∧ number ≤ lastSeq file

/-- A ledger whose counter is above every number given out and whose settled directories show
theirs. -/
structure Ledger.Valid (ledger : Ledger) : Prop where
  /-- A counter in memory belongs to a directory and is above its numbers. -/
  next : ledger.store.nextSeq ≠ 0 → ledger.store.dir ≠ [] ∧
    ∀ number ∈ ledger.numbers ledger.store.dir, number < ledger.store.nextSeq
  /-- A settled directory shows every number. -/
  shows : ∀ dir, ledger.settled dir = true → ∀ number ∈ ledger.numbers dir,
    Shows (ledger.store.disk dir) number
  /-- The numbers rise. -/
  rising : Rising ledger

/-- The default directory does not touch the files. -/
@[simp] theorem setDefaultDir_disk (store : Store) : (setDefaultDir store).disk = store.disk := by
  unfold setDefaultDir
  split <;> rfl

/-- The counter that is read is above every number shown. -/
theorem seedSeq_above {store : Store} (fresh : store.nextSeq = 0) {number : UInt64}
    (visible : newest store.segs store.maxFiles = newest store.segs segMax)
    (room : ∀ file, newest store.segs store.maxFiles = some file → lastSeq file + 1 ≠ 0)
    (shown : Shows store.segs number) : number < (seedSeq store).nextSeq := by
  obtain ⟨file, found, low⟩ := shown
  rw [← visible] at found
  have left := room file found
  have search : ((List.range store.maxFiles).findSome? fun index =>
      (store.segs index).filter fun file => !file.isEmpty) = some file := found
  rw [seedSeq, if_neg (by simp [fresh]), search]
  dsimp only
  rw [UInt64.le_iff_toNat_le] at low
  have top := (lastSeq file).toNat_lt
  have below : (lastSeq file).toNat ≠ 2 ^ 64 - 1 := by
    intro same
    apply left
    apply UInt64.toNat_inj.mp
    rw [UInt64.toNat_add, UInt64.toNat_one, UInt64.toNat_zero]
    omega
  rw [UInt64.lt_iff_toNat_lt]
  split
  · rw [UInt64.toNat_add, UInt64.toNat_one]
    omega
  · rename_i zero
    rw [UInt64.lt_iff_toNat_lt, UInt64.toNat_zero] at zero
    rw [UInt64.toNat_one]
    omega

/-- The number that an append gives out is above every number of its directory. -/
theorem appendCopy_above {ledger : Ledger} (valid : ledger.Valid) (event : Event) (now : Int64)
    (shown : ledger.store.nextSeq = 0 →
      ledger.numbers (setDefaultDir ledger.store).dir ≠ [] → Shown ledger) :
    ∀ number ∈ ledger.numbers (setDefaultDir ledger.store).dir,
      number < (appendCopy ledger.store event now).1.nextSeq := by
  intro number given
  show number < (seedSeq (setDefaultDir ledger.store)).nextSeq
  by_cases fresh : ledger.store.nextSeq = 0
  · have files := shown fresh (List.ne_nil_of_mem given)
    refine seedSeq_above (by rw [setDefaultDir_nextSeq, fresh]) ?_ ?_ ?_
    · rw [setDefaultDir_maxFiles]
      exact files.visible
    · rw [setDefaultDir_maxFiles]
      exact files.room
    · have held := valid.shows _ files.settled number given
      rw [Store.segs, setDefaultDir_disk]
      exact held
  · obtain ⟨set, above⟩ := valid.next fresh
    rw [setDefaultDir_eq set] at given ⊢
    rw [seedSeq, if_pos fresh]
    exact above number given

/-- The line of an append is not empty. -/
theorem appendedLine_ne_nil (store : Store) (event : Event) (now : Int64) :
    appendedLine store event now ≠ [] := by
  simp [appendedLine]

/-- The number of the copy is the counter. -/
theorem appendCopy_seq (store : Store) (event : Event) (now : Int64) :
    (appendCopy store event now).2.seq = (appendCopy store event now).1.nextSeq := rfl

/-- After an append that leaves its directory settled, the files show every number that they
showed before, and the new one when its line was taken whole. -/
theorem shows_after {store : Store} {event : Event} {host : Host} {segs : Segs}
    (files : FilesAfter store event host segs) {died before : Bool}
    (settled : settledAfter store event host died before = true) :
    (∀ number, (before = true → Shows (setDefaultDir store).segs number) →
      number ≤ (appendCopy store event host.now).1.nextSeq → Shows segs number) ∧
    (died = false → comesToWrite store event host = true →
      (takenLine host (appendedLine store event host.now)).length =
        (appendedLine store event host.now).length →
      Shows segs (appendCopy store event host.now).1.nextSeq) := by
  have fits : (appendCopy store event host.now).2.Fits := stored_fits _ _ _
  unfold settledAfter at settled
  by_cases writes : comesToWrite store event host = true
  · obtain ⟨target, after, intact⟩ := files.written writes
    rw [if_pos writes] at settled
    dsimp only at settled
    by_cases whole : reachedLine host (appendedLine store event host.now) =
        appendedLine store event host.now
    · rw [if_pos whole] at settled
      rw [whole] at after
      have filled : fileWritten store event host ++ appendedLine store event host.now ≠ [] := by
        simp [appendedLine_ne_nil]
      have present : newest segs segMax =
          some (fileWritten store event host ++ appendedLine store event host.now) := by
        apply newest_base _ filled (by decide)
        rw [after, Function.update_self]
      have shown : (appendCopy store event host.now).1.nextSeq ≤
          lastSeq (fileWritten store event host ++ appendedLine store event host.now) := by
        rw [← appendCopy_seq]
        exact lastSeq_line settled fits
      refine ⟨fun number _ low => ⟨_, present, UInt64.le_trans low shown⟩, ?_⟩
      exact fun _ _ _ => ⟨_, present, shown⟩
    · rw [if_neg whole] at settled
      simp only [Bool.and_eq_true, Bool.not_eq_true', Bool.or_eq_true, bne_iff_ne,
        List.isEmpty_iff, List.isEmpty_eq_false_iff] at settled
      obtain ⟨⟨⟨held, uncut⟩, unwritten⟩, rest⟩ := settled
      refine ⟨?_, ?_⟩
      · intro number shown _
        obtain ⟨file, found, low⟩ := shown held
        rcases rest with nothing | ⟨filled, ended⟩
        · rw [nothing, List.append_nil] at after
          exact ⟨file, by rw [after, intact uncut, found], low⟩
        · have same : newest (Function.update target 0
              (some (fileWritten store event host))) segMax =
                some (fileWritten store event host) :=
            newest_base (Function.update_self _ _ _) filled (by decide)
          rw [intact uncut, found] at same
          obtain rfl := Option.some.inj same
          refine ⟨_, newest_base (by rw [after, Function.update_self]) ?_ (by decide), ?_⟩
          · simp [filled]
          · exact UInt64.le_trans low (lastSeq_append ended _)
      · intro alive _ taken
        rcases unwritten with died | short
        · rw [alive] at died
          cases died
        · exact absurd taken short
  · rw [Bool.not_eq_true] at writes
    rw [writes, if_neg (by simp), Bool.and_eq_true, Bool.not_eq_true'] at settled
    refine ⟨?_, ?_⟩
    · intro number shown _
      obtain ⟨file, found, low⟩ := shown settled.1
      exact ⟨file, by rw [files.kept writes settled.2, found], low⟩
    · intro _ other
      rw [writes] at other
      cases other

/-! ## One step -/

/-- A number more in one directory. -/
theorem numbers_append (store : Store) (given : List (CString × UInt64)) (dir : CString)
    (seq : UInt64) (settled : CString → Bool) (other : CString) :
    (⟨store, given ++ [(dir, seq)], settled⟩ : Ledger).numbers other =
      (⟨store, given, settled⟩ : Ledger).numbers other ++ if dir = other then [seq] else [] := by
  rw [Ledger.numbers, Ledger.numbers, List.filter_append, List.map_append]
  congr 1
  split
  · rename_i same
    simp [same]
  · rename_i differs
    simp [differs]

/-- An append leaves the files of other directories alone. -/
theorem setSegs_other (store : Store) (segs : Segs) {dir : CString} (other : dir ≠ store.dir) :
    (store.setSegs segs).disk dir = store.disk dir := Function.update_of_ne other _ _

/-- A call that changes no file keeps a settled directory. -/
theorem settledAfter_shut {store : Store} {event : Event} {host : Host} (died before : Bool)
    (shut : opensFile event host = false) :
    settledAfter store event host died before = before := by
  rw [settledAfter, comesToWrite, truncates, startsRotation, shut]
  simp

/-- An append that is rejected or has no directory changes at most the directory's name. -/
theorem opsAppend_refused {store : Store} {event : Event} {host : Host}
    (refused : ¬ (event.Accepted ∧ host.mkdir = 0)) :
    opensFile event host = false ∧
      ∃ error, (opsAppend store event host).2 = .error error ∧
        ((opsAppend store event host).1 = store ∨
          (opsAppend store event host).1 = setDefaultDir store) := by
  by_cases accepted : event.Accepted
  · have unmade : host.mkdir ≠ 0 := fun made => refused ⟨accepted, made⟩
    have checked : ¬ (event.subject = [] ∨ event.action = []) := not_or.mpr accepted
    refine ⟨by simp [opensFile, unmade], host.mkdir, ?_⟩
    rw [opsAppend, if_neg checked, if_pos unmade]
    exact ⟨rfl, .inr rfl⟩
  · have checked : event.subject = [] ∨ event.action = [] := by
      rw [Event.Accepted, not_and_or, not_not, not_not] at accepted
      exact accepted
    refine ⟨?_, einval, ?_⟩
    · rcases checked with none | none <;> simp [opensFile, none]
    · rw [opsAppend, if_pos checked]
      exact ⟨rfl, .inl rfl⟩

/-- A ledger stays valid when only the directory's default is set. -/
theorem Ledger.Valid.refused {ledger : Ledger} (valid : ledger.Valid) {store : Store}
    (same : store = ledger.store ∨ store = setDefaultDir ledger.store) {settled : CString → Bool}
    (kept : ∀ dir, settled dir = ledger.settled dir) :
    (⟨store, ledger.given, settled⟩ : Ledger).Valid := by
  have disk : store.disk = ledger.store.disk := by
    rcases same with rfl | rfl
    · rfl
    · exact setDefaultDir_disk _
  refine ⟨?_, ?_, valid.rising⟩
  · intro counted
    rcases same with rfl | rfl
    · exact valid.next counted
    · dsimp only at counted
      rw [setDefaultDir_nextSeq] at counted
      obtain ⟨set, above⟩ := valid.next counted
      have default := setDefaultDir_eq set
      dsimp only
      rw [default]
      exact ⟨set, above⟩
  · intro dir settledDir number given
    dsimp only at settledDir ⊢
    rw [disk]
    exact valid.shows dir (kept dir ▸ settledDir) number given

/-- What an append or its death leaves on the files is shown in every settled directory. -/
theorem shows_settledBy {ledger : Ledger} (valid : ledger.Valid) {event : Event} {host : Host}
    {segs : Segs} (files : FilesAfter ledger.store event host segs) (died : Bool)
    (above : ∀ number ∈ ledger.numbers (setDefaultDir ledger.store).dir,
      number < (appendCopy ledger.store event host.now).1.nextSeq) (dir : CString)
    (settled : ledger.settledBy event host died dir = true) :
    ∀ number ∈ ledger.numbers dir,
      Shows (((appendCopy ledger.store event host.now).1.setSegs segs).disk dir) number := by
  intro number given
  have own := appendCopy_dir ledger.store event host.now
  by_cases here : dir = (setDefaultDir ledger.store).dir
  · subst here
    rw [Ledger.settledBy, Function.update_self] at settled
    have shown := (shows_after files settled).1 number
      (fun before => by
        have held := valid.shows _ before number given
        rw [Store.segs, setDefaultDir_disk]
        exact held)
      (UInt64.le_of_lt (above number given))
    rw [← own]
    show Shows ((appendCopy ledger.store event host.now).1.setSegs segs).segs number
    rw [segs_setSegs]
    exact shown
  · rw [Ledger.settledBy, Function.update_of_ne here] at settled
    rw [setSegs_other _ _ (own ▸ here)]
    have untouched : (appendCopy ledger.store event host.now).1.disk = ledger.store.disk := by
      obtain ⟨seq, same⟩ := seedSeq_eq (setDefaultDir ledger.store)
      rw [appendCopy, same]
      exact setDefaultDir_disk _
    rw [untouched]
    exact valid.shows dir settled number given

/-- A new process keeps a valid ledger valid: it has no counter. -/
theorem Ledger.Valid.reborn {ledger : Ledger} (rising : Rising ledger) {store : Store}
    {settled : CString → Bool}
    (shows : ∀ dir, settled dir = true → ∀ number ∈ ledger.numbers dir,
      Shows (store.disk dir) number) :
    (⟨Audit.reborn store, ledger.given, settled⟩ : Ledger).Valid := by
  refine ⟨fun counted => absurd rfl counted, ?_, rising⟩
  intro dir settledDir number given
  exact shows dir settledDir number given

/-- Setting a new directory or a limit keeps a valid ledger valid. -/
theorem configure_valid {ledger : Ledger} (valid : ledger.Valid) (key value : Option CString) :
    ({ ledger with store := (configure ledger.store key value).1 } : Ledger).Valid := by
  have changed (store : Store) (disk : store.disk = ledger.store.disk)
      (counter : (store.dir = ledger.store.dir ∧ store.nextSeq = ledger.store.nextSeq) ∨
        store.nextSeq = 0) : ({ ledger with store := store } : Ledger).Valid := by
    refine ⟨?_, ?_, valid.rising⟩
    · intro counted
      rcases counter with ⟨dir, next⟩ | zero
      · dsimp only at counted ⊢
        rw [next] at counted ⊢
        rw [dir]
        exact valid.next counted
      · exact absurd zero counted
    · intro dir settled number given
      dsimp only
      rw [disk]
      exact valid.shows dir settled number given
  have same : ({ ledger with store := ledger.store } : Ledger).Valid :=
    changed _ rfl (.inl ⟨rfl, rfl⟩)
  unfold configure
  split
  · exact same
  · exact same
  · split_ifs
    · exact same
    · exact changed _ rfl (.inr rfl)
    · split
      · exact same
      · exact changed _ rfl (.inl ⟨rfl, rfl⟩)
    · split
      · exact same
      · exact changed _ rfl (.inl ⟨rfl, rfl⟩)
    · exact same

/-- A successful append keeps a ledger valid. -/
theorem Ledger.Valid.succeeded {ledger : Ledger} (valid : ledger.Valid) {event : Event}
    {host : Host} {segs : Segs} (files : FilesAfter ledger.store event host segs)
    (above : ∀ number ∈ ledger.numbers (setDefaultDir ledger.store).dir,
      number < (appendCopy ledger.store event host.now).1.nextSeq)
    (writes : comesToWrite ledger.store event host = true)
    (taken : (takenLine host (appendedLine ledger.store event host.now)).length =
      (appendedLine ledger.store event host.now).length) :
    (⟨{ (appendCopy ledger.store event host.now).1.setSegs segs with
          nextSeq := (appendCopy ledger.store event host.now).1.nextSeq + 1 },
        ledger.given ++ [((appendCopy ledger.store event host.now).1.dir,
          (appendCopy ledger.store event host.now).1.nextSeq)],
        ledger.settledBy event host false⟩ : Ledger).Valid := by
  have own := appendCopy_dir ledger.store event host.now
  refine ⟨?_, ?_, ?_⟩
  · intro counted
    refine ⟨?_, ?_⟩
    · show (appendCopy ledger.store event host.now).1.dir ≠ []
      rw [own]
      exact setDefaultDir_dir _
    intro number given
    rw [numbers_append] at given
    have small : number ≤ (appendCopy ledger.store event host.now).1.nextSeq := by
      rcases List.mem_append.mp given with old | new
      · exact UInt64.le_of_lt (above number (own ▸ old))
      · split at new
        · rw [List.mem_singleton.mp new]
          exact UInt64.le_refl _
        · cases new
    rw [UInt64.le_iff_toNat_le] at small
    rw [UInt64.lt_iff_toNat_lt]
    have positive : ((appendCopy ledger.store event host.now).1.nextSeq + 1).toNat ≠ 0 := by
      intro zero
      exact counted (UInt64.toNat_inj.mp zero)
    have bound := (appendCopy ledger.store event host.now).1.nextSeq.toNat_lt
    rw [UInt64.toNat_add, UInt64.toNat_one] at positive ⊢
    omega
  · intro dir settled number given
    rw [numbers_append] at given
    rcases List.mem_append.mp given with old | new
    · exact shows_settledBy valid files false above dir settled number old
    · split at new
      · rename_i here
        have here : dir = (setDefaultDir ledger.store).dir := here.symm.trans own
        subst here
        rw [List.mem_singleton.mp new]
        simp only [Ledger.settledBy, Function.update_self] at settled
        have shown := (shows_after files settled).2 rfl writes taken
        rw [← own]
        show Shows ((appendCopy ledger.store event host.now).1.setSegs segs).segs _
        rw [segs_setSegs]
        exact shown
      · cases new
  · intro dir
    rw [numbers_append, List.pairwise_append]
    refine ⟨valid.rising dir, ?_, ?_⟩
    · split
      · exact List.pairwise_singleton _ _
      · exact List.Pairwise.nil
    · intro number given next new
      split at new
      · rename_i here
        have here : dir = (setDefaultDir ledger.store).dir := here.symm.trans own
        subst here
        rw [List.mem_singleton.mp new]
        exact above number given
      · cases new

/-- Every step that meets the condition keeps a ledger valid. -/
theorem ledgerStep_valid (ledger : Ledger) (call : Call) (valid : ledger.Valid)
    (reads : ReadsShown ledger call) : (ledgerStep ledger call).Valid := by
  cases call with
  | configure key value => exact configure_valid valid key value
  | restart => exact Ledger.Valid.reborn valid.rising valid.shows
  | append event host =>
    rw [ledgerStep]
    rcases result : opsAppend ledger.store event host with ⟨store, outcome⟩
    by_cases usual : event.Accepted ∧ host.mkdir = 0
    · obtain ⟨accepted, made⟩ := usual
      have above := appendCopy_above valid event host.now (reads accepted made)
      obtain ⟨segs, appended⟩ := @opsAppend_spec ledger.store event accepted host made
      have own := appendCopy_dir ledger.store event host.now
      have ending := appended.outcome
      rw [result] at ending
      dsimp only at ending
      rcases ending with ⟨rfl, rfl, writes, taken⟩ | ⟨rfl, error, rfl⟩
      · exact valid.succeeded appended.files above writes taken
      · refine ⟨?_, shows_settledBy valid appended.files false above, valid.rising⟩
        intro counted
        refine ⟨?_, fun number given => above number (own ▸ given)⟩
        show (appendCopy ledger.store event host.now).1.dir ≠ []
        rw [own]
        exact setDefaultDir_dir _
    · obtain ⟨shut, error, failed, same⟩ := @opsAppend_refused ledger.store event host usual
      rw [result] at failed same
      dsimp only at failed same
      subst failed
      apply valid.refused same
      intro dir
      rw [Ledger.settledBy, settledAfter_shut _ _ shut, Function.update_eq_self]
  | die event host =>
    rw [ledgerStep]
    apply Ledger.Valid.reborn valid.rising
    intro dir settled number given
    by_cases usual : event.Accepted ∧ host.mkdir = 0
    · obtain ⟨accepted, made⟩ := usual
      have above := appendCopy_above valid event host.now (reads accepted made)
      obtain ⟨segs, appended⟩ := @opsAppend_spec ledger.store event accepted host made
      have disk : (opsAppend ledger.store event host).1.disk =
          ((appendCopy ledger.store event host.now).1.setSegs segs).disk := by
        rcases appended.outcome with ⟨after, -⟩ | ⟨after, -⟩ <;> rw [after]
      rw [disk]
      exact shows_settledBy valid appended.files true above dir settled number given
    · obtain ⟨shut, error, failed, same⟩ := @opsAppend_refused ledger.store event host usual
      rw [Ledger.settledBy, settledAfter_shut _ _ shut, Function.update_eq_self] at settled
      have disk : (opsAppend ledger.store event host).1.disk = ledger.store.disk := by
        rcases same with after | after
        · rw [after]
        · rw [after, setDefaultDir_disk]
      rw [disk]
      exact valid.shows dir settled number given

/-! ## Every run -/

/-- In every run of appends, configurations and restarts over any files, where an append may fail
or die at any point, the numbers given out in a directory rise, as long as every append that
reads its number from the files finds the last one shown. -/
theorem run_rising (disk : CString → Segs) (calls : List Call)
    (reads : AllSteps ledgerStep ReadsShown (ledgerInit disk) calls) :
    AllStates ledgerStep Rising (ledgerInit disk) calls := by
  have initial : (ledgerInit disk).Valid := by
    refine ⟨fun counted => absurd rfl counted, ?_, ?_⟩
    · intro dir _ number given
      cases given
    · intro dir
      exact List.Pairwise.nil
  exact (allStates_of_steps ledgerStep_valid initial reads).mono fun _ valid => valid.rising

/-- A host on which the main file cannot be opened again after a rotation. -/
def deadHost : Host := { quietHost 0 with reopen := eio }

/-- A log that keeps some segments and rotates at every append; a process dies between the
rotation and the write. -/
def rotateAndDie (maxFiles : String) : List Call :=
  [.configure (some (lit "audit.log.max_bytes")) (some (lit "1")),
    .configure (some (lit "audit.log.max_files")) (some (lit maxFiles)),
    .append loginEvent (quietHost 0), .die loginEvent deadHost, .append loginEvent (quietHost 0)]

/-- With three segments the moved file shows the last number. -/
theorem rising_three_segments :
    AllStates ledgerStep Rising (ledgerInit fun _ _ => none) (rotateAndDie "3") ∧
      (run ledgerStep (ledgerInit fun _ _ => none) (rotateAndDie "3")).given.map Prod.snd =
        [1, 2] :=
  ⟨run_rising _ _ (by decide +kernel), by decide +kernel⟩

/-- With one segment the number is given out twice. -/
theorem number_given_twice :
    ¬ ∀ (disk : CString → Segs) (calls : List Call),
      AllStates ledgerStep Rising (ledgerInit disk) calls := by
  intro always
  have last : Rising (run ledgerStep (ledgerInit fun _ _ => none) (rotateAndDie "1")) :=
    (always (fun _ _ => none) (rotateAndDie "1")).last
  have twice : (run ledgerStep (ledgerInit fun _ _ => none) (rotateAndDie "1")).numbers
      (lit "/var/lib/hwrun/audit") = [1, 1] := by decide +kernel
  have rising := last (lit "/var/lib/hwrun/audit")
  rw [twice] at rising
  revert rising
  decide

end HwrunOs.Audit
