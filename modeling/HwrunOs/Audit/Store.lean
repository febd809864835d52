import HwrunOs.Audit.Event
import Mathlib.Logic.Function.Basic

/-!
# The audit store

`audit_impl.c` appends lines to a main file and rotates it into numbered segments: the segment
of index zero is the main file and a higher index is older. The outcome of every call to the
system is part of the operation's host, so a failing call is an ordinary input.
-/

namespace HwrunOs.Audit

open HwrunOs.Bytes

/-! ## Result codes -/

/-- `-EIO`. -/
def eio : Int := -5
/-- `-EINVAL`. -/
def einval : Int := -22
/-- `-EILSEQ`. -/
def eilseq : Int := -84

/-! ## State -/

/-- The segment files of a directory by index. -/
abbrev Segs := Nat → Option CString

/-- `audit_store_t`, with the segment files of every directory. -/
structure Store where
  /-- Log directory; empty before it is set. -/
  dir : CString
  /-- Size of a file from which it is rotated. -/
  maxBytes : UInt64
  /-- Segments kept, the main file included. -/
  maxFiles : Nat
  /-- Number of the next event; zero before it is read from the files. -/
  nextSeq : UInt64
  /-- Segment files on disk. -/
  disk : CString → Segs

/-- The segments of the log directory. -/
def Store.segs (store : Store) : Segs := store.disk store.dir

/-- Write the segments of the log directory. -/
def Store.setSegs (store : Store) (segs : Segs) : Store :=
  { store with disk := Function.update store.disk store.dir segs }

/-- The store of a process start over empty directories. -/
def storeInit (dir : CString) : Store := ⟨dir, 1048576, 3, 0, fun _ _ => none⟩

/-- The outcome of the calls of one `append`: zero or an error other than `-ENOENT`. -/
structure Host where
  /-- `time`. -/
  now : Int64
  /-- `mkdir`, zero also when the directory exists. -/
  mkdir : Int
  /-- `fopen` of the main file. -/
  fopen : Int
  /-- `fstat`. -/
  fstat : Int
  /-- `rename` to a segment, or `truncate` for index zero. -/
  move : Nat → Int
  /-- `unlink` of a segment. -/
  unlink : Nat → Int
  /-- `fopen` after a rotation. -/
  reopen : Int
  /-- Bytes that `fwrite` takes, when it is not all of them. -/
  fwrite : Option Nat
  /-- Bytes of those that reach the file, when it is not all of them. -/
  fclose : Option Nat

/-- A host without failures. -/
def quietHost (now : Int64) : Host := ⟨now, 0, 0, 0, fun _ => 0, fun _ => 0, 0, none, none⟩

/-! ## Segments -/

/-- `rename` of a segment; a missing source leaves everything as it is. -/
def renameSeg (segs : Segs) (source target : Nat) : Segs :=
  match segs source with
  | none => segs
  | some file => Function.update (Function.update segs source none) target (some file)

/-- `fopen(path, "a")` of the main file. -/
def openBase (segs : Segs) : Segs := Function.update segs 0 (some ((segs 0).getD []))

/-- The first loop of `rotate_locked`, from the highest segment down. -/
def shiftUp (host : Host) : Nat → Segs → Segs × Int
  | 0, segs => (segs, 0)
  | index + 1, segs =>
    if host.move (index + 1) ≠ 0 then (segs, host.move (index + 1))
    else shiftUp host index (renameSeg segs index (index + 1))

/-- The second loop of `rotate_locked`, over the segments that are too many. -/
def dropOld (host : Host) : List Nat → Segs → Segs × Int
  | [], segs => (segs, 0)
  | index :: rest, segs =>
    if host.unlink index ≠ 0 then (segs, host.unlink index)
    else dropOld host rest (Function.update segs index none)

/-- `HW_AUDIT_SEG_MAX`. -/
abbrev segMax : Nat := 16

/-- `rotate_locked`. -/
def rotate (host : Host) (maxFiles : Nat) (segs : Segs) : Segs × Int :=
  if maxFiles ≤ 1 then
    if host.move 0 ≠ 0 then (segs, host.move 0)
    else (Function.update segs 0 ((segs 0).map fun _ => []), 0)
  else
    let (segs, rc) := shiftUp host (maxFiles - 1) segs
    if rc ≠ 0 then (segs, rc)
    else dropOld host (List.range' maxFiles (segMax - maxFiles)) segs

/-- The events of the lines of a file. -/
def fileEvents (file : CString) : List Event := (fgetsLines 4096 file).filterMap parseEvent

/-- The highest number in a file. -/
def lastSeq (file : CString) : UInt64 :=
  (fileEvents file).foldl (fun last event => if last < event.seq then event.seq else last) 0

/-- `seed_seq_locked`: the number after the last one in the newest file that is not empty. -/
def seedSeq (store : Store) : Store :=
  if store.nextSeq ≠ 0 then store
  else
    match (List.range store.maxFiles).findSome? fun index =>
        (store.segs index).filter fun file => !file.isEmpty with
    | none => { store with nextSeq := 1 }
    | some file =>
      { store with nextSeq := if 0 < lastSeq file then lastSeq file + 1 else 1 }

/-- `set_default_dir_locked`. -/
def setDefaultDir (store : Store) : Store :=
  if store.dir = [] then { store with dir := lit "/var/lib/hwrun/audit" } else store

/-! ## Append -/

/-- The copy of an event that `append` stores. -/
def Event.stored (event : Event) (seq : UInt64) (now : Int64) : Event where
  seq := seq
  ts := if 0 < event.ts then event.ts else now
  subject := snprintf 64 event.subject
  action := snprintf 64 event.action
  target := snprintf 256 event.target
  detail := snprintf 512 event.detail
  result := event.result

/-- The main file is not empty and would grow beyond the limit. -/
def needsRotation (store : Store) (line : CString) : Bool :=
  let size := ((store.segs 0).getD []).length
  decide (0 < size ∧ store.maxBytes < UInt64.ofNat size + UInt64.ofNat line.length)

/-- `fwrite` and `fclose` of a line on the main file. -/
def writeLine (store : Store) (host : Host) (line : CString) : Store × Except Int UInt64 :=
  let taken := match host.fwrite with
    | none => line
    | some count => line.take count
  let reached := match host.fclose with
    | none => taken
    | some count => taken.take count
  let after := store.setSegs
    (Function.update store.segs 0 (some ((store.segs 0).getD [] ++ reached)))
  if taken.length ≠ line.length then (after, .error eio)
  else ({ after with nextSeq := store.nextSeq + 1 }, .ok store.nextSeq)

/-- The part of `ops_append` that works on files. -/
def appendLine (store : Store) (host : Host) (line : CString) : Store × Except Int UInt64 :=
  if host.fopen ≠ 0 then (store, .error host.fopen)
  else
    let opened := store.setSegs (openBase store.segs)
    if host.fstat ≠ 0 then (opened, .error host.fstat)
    else if needsRotation opened line then
      let (segs, rc) := rotate host opened.maxFiles opened.segs
      let rotated := opened.setSegs segs
      if rc ≠ 0 then (rotated, .error rc)
      else if host.reopen ≠ 0 then (rotated, .error host.reopen)
      else writeLine (rotated.setSegs (openBase rotated.segs)) host line
    else writeLine opened host line

/-- The store and the event when `ops_append` comes to write. -/
def appendCopy (store : Store) (event : Event) (now : Int64) : Store × Event :=
  let seeded := seedSeq (setDefaultDir store)
  (seeded, event.stored seeded.nextSeq now)

/-- `ops_append`. -/
def opsAppend (store : Store) (event : Event) (host : Host) : Store × Except Int UInt64 :=
  if event.subject = [] ∨ event.action = [] then (store, .error einval)
  else if host.mkdir ≠ 0 then (setDefaultDir store, .error host.mkdir)
  else
    let (seeded, copy) := appendCopy store event host.now
    match fmtLine 4096 copy with
    | none => (seeded, .error eilseq)
    | some line => appendLine seeded host line

/-! ## Query -/

/-- `hw_audit_query_t`. -/
structure Query where
  /-- First time; not positive for any. -/
  startTs : Int64
  /-- Last time; not positive for any. -/
  endTs : Int64
  /-- Subject; empty for any. -/
  subject : CString
  /-- Action; empty for any. -/
  action : CString
  /-- Result code searched for. -/
  result : Int32
  /-- Whether the result code is searched for. -/
  resultSet : Int32
  /-- One for the newest event first. -/
  order : Int32
  /-- Most events returned; not positive for all. -/
  limit : Int32

/-- `event_matches`. -/
def eventMatches (event : Event) : Option Query → Bool
  | none => true
  | some query =>
    !(decide (0 < query.startTs) && decide (event.ts < query.startTs)) &&
      !(decide (0 < query.endTs) && decide (query.endTs < event.ts)) &&
      (query.subject.isEmpty || event.subject == query.subject) &&
      (query.action.isEmpty || event.action == query.action) &&
      (query.resultSet == 0 || event.result == query.result)

/-- The loop of `collect_locked`, from the oldest segment kept to the main file. -/
def collectSegs (segs : Segs) (query : Option Query) : Nat → List Event
  | 0 => []
  | index + 1 =>
    (fileEvents ((segs index).getD [])).filter (eventMatches · query) ++
      collectSegs segs query index

/-- `collect_locked`. -/
def collect (store : Store) (query : Option Query) : List Event :=
  let events := collectSegs store.segs query store.maxFiles
  match query with
  | none => events
  | some query =>
    let ordered := if query.order = 1 then events.reverse else events
    if 0 < query.limit then ordered.take query.limit.toInt.toNat else ordered

/-- `ops_query`. -/
def opsQuery (store : Store) (query : Option Query) : Store × List Event :=
  let store := setDefaultDir store
  (store, collect store query)

/-! ## Configuration -/

/-- The factor of the unit after a size. -/
def sizeUnit : CString → Option Nat
  | [] => some 1
  | unit :: rest =>
    if rest ≠ [] ∧ rest ≠ [98] ∧ rest ≠ [66] then none
    else if unit = 107 ∨ unit = 75 then some 1024
    else if unit = 109 ∨ unit = 77 then some (1024 * 1024)
    else if unit = 103 ∨ unit = 71 then some (1024 * 1024 * 1024)
    else none

/-- `parse_size`. -/
def parseSize (text : CString) : Option UInt64 :=
  let (value, rest) := strtoull text
  if text = [] ∨ strtoullOverflows text = true ∨ rest = text ∨ value = 0 then none
  else
    match sizeUnit rest with
    | none => none
    | some factor =>
      if (2 ^ 64 - 1) / factor < value then none else some (UInt64.ofNat (value * factor))

/-- `parse_int_range`. -/
def parseIntRange (text : CString) (low high : Int) : Option Int :=
  let (value, rest) := strtoll text
  if text = [] ∨ strtollOverflows text = true ∨ rest = text ∨ rest ≠ [] ∨ value < low ∨
      high < value then none
  else some value

/-- The directory of the path parameter: slashes at its end are dropped. -/
def normDir (value : CString) : CString :=
  let text := snprintf 512 value
  if (text.rdropWhile (· == 47)).isEmpty then text.take 1 else text.rdropWhile (· == 47)

/-- `hw_audit_configure`. -/
def configure (store : Store) (key value : Option CString) : Store × Int :=
  match key, value with
  | none, _ => (store, einval)
  | some _, none => (store, 0)
  | some key, some value =>
    if key = lit "audit.log.path" then
      if value = [] ∨ normDir value = store.dir then (store, 0)
      else ({ store with dir := normDir value, nextSeq := 0 }, 0)
    else if key = lit "audit.log.max_bytes" then
      match parseSize value with
      | none => (store, einval)
      | some size => ({ store with maxBytes := size }, 0)
    else if key = lit "audit.log.max_files" then
      match parseIntRange value 1 segMax with
      | none => (store, einval)
      | some count => ({ store with maxFiles := count.toNat }, 0)
    else (store, 0)

end HwrunOs.Audit
