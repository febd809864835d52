import HwrunOs.Audit.Segments

/-!
# Exporting a log

`ops_export_events` formats the events that a query collects once more. For a log made of lines
that `fmt_line` wrote, the export without a condition is the log, byte by byte.
-/

namespace HwrunOs.Audit

open HwrunOs.Bytes

/-! ## The export -/

/-- The outcome of the calls of one export. -/
structure ExportHost where
  /-- `fopen`: zero or an error. -/
  fopen : Int
  /-- The line that `fwrite` does not take, if there is one. -/
  fwrite : Option Nat
  /-- `fclose` fails. -/
  fclose : Bool

/-- What an export returns, with the file it leaves at its path. -/
structure Exported where
  /-- Result code. -/
  rc : Int
  /-- Lines written. -/
  written : Nat
  /-- The file, when the export leaves one. -/
  file : Option CString

/-- The loop of `ops_export_events` after `written` lines. -/
def exportLines (host : ExportHost) (written : Nat) (file : CString) :
    List Event → Int × Nat × CString
  | [] => (0, written, file)
  | event :: rest =>
    match fmtLine 4096 event with
    | none => (eilseq, written, file)
    | some line =>
      if host.fwrite = some written then (eio, written, file)
      else exportLines host (written + 1) (file ++ line) rest

/-- `ops_export_events`: a failed export leaves no file. -/
def opsExportEvents (store : Store) (query : Option Query) (host : ExportHost) : Exported :=
  let events := collect (setDefaultDir store) query
  if host.fopen ≠ 0 then ⟨host.fopen, 0, none⟩
  else
    let (rc, written, file) := exportLines host 0 [] events
    let rc := if host.fclose ∧ rc = 0 then eio else rc
    ⟨rc, written, if rc = 0 then some file else none⟩

/-- A host without failures. -/
def quietExport : ExportHost := ⟨0, none, false⟩

/-- The query without a condition, as `memset` leaves it. -/
def zeroQuery : Query := ⟨0, 0, [], [], 0, 0, 0, 0⟩

/-! ## Logs -/

/-- A file is the lines that `fmt_line` wrote for some events. -/
def Wrote (events : List Event) (file : CString) : Prop :=
  ∃ lines, events.mapM (fmtLine 4096) = some lines ∧ file = lines.flatten

/-- Every segment of a store that is looked at is the lines of stored events. -/
def Logged (store : Store) : Prop :=
  ∀ index < store.maxFiles, ∀ file, (setDefaultDir store).segs index = some file →
    ∃ events, (∀ event ∈ events, event.Stored) ∧ Wrote events file

/-- The bytes of the segments, from the oldest one kept to the main file. -/
def logBytes (segs : Segs) : Nat → CString
  | 0 => []
  | index + 1 => (segs index).getD [] ++ logBytes segs index

/-- The lines of stored events are their bodies with line feeds. -/
theorem mapM_fmtLine {events : List Event} (stored : ∀ event ∈ events, event.Stored) :
    events.mapM (fmtLine 4096) = some (events.map fun event => lineBody event ++ [newline]) := by
  induction events with
  | nil => rfl
  | cons event rest ih =>
    have first := fmtLine_fits (stored event List.mem_cons_self).toFits
    have later := ih fun other listed => stored other (List.mem_cons_of_mem _ listed)
    rw [List.mapM_cons, first, later]
    rfl

/-- The lines that `fmt_line` wrote for stored events are their text. -/
theorem wrote_iff {events : List Event} (stored : ∀ event ∈ events, event.Stored)
    {file : CString} : Wrote events file ↔ file = segText events := by
  have text : (events.map fun event => lineBody event ++ [newline]).flatten = segText events :=
    List.flatMap_def.symm
  unfold Wrote
  rw [mapM_fmtLine stored, ← text]
  constructor
  · rintro ⟨lines, made, rfl⟩
    rw [Option.some.inj made]
  · intro same
    exact ⟨_, rfl, same⟩

/-- Without failures the export of stored events is their text. -/
theorem exportLines_stored {events : List Event} (stored : ∀ event ∈ events, event.Stored)
    (written : Nat) (file : CString) : exportLines quietExport written file events =
      (0, written + events.length, file ++ segText events) := by
  induction events generalizing written file with
  | nil => simp [exportLines, segText]
  | cons event rest ih =>
    have first := fmtLine_fits (stored event List.mem_cons_self).toFits
    have later := ih fun other listed => stored other (List.mem_cons_of_mem _ listed)
    have taken : ¬ quietExport.fwrite = some written := by simp [quietExport]
    rw [exportLines, first]
    dsimp only
    rw [if_neg taken, later]
    refine Prod.ext rfl (Prod.ext ?_ ?_)
    · show written + 1 + rest.length = written + (rest.length + 1)
      omega
    · show file ++ (lineBody event ++ [newline]) ++ segText rest = file ++ segText (event :: rest)
      rw [List.append_assoc]
      rfl

/-- A query without a condition collects what no query collects. -/
theorem collect_zeroQuery (store : Store) :
    collect store (some zeroQuery) = collect store none := by
  have all (event : Event) : eventMatches event (some zeroQuery) = eventMatches event none := by
    simp [eventMatches, zeroQuery]
  have segs (count : Nat) : collectSegs store.segs (some zeroQuery) count =
      collectSegs store.segs none count := by
    induction count with
    | zero => rfl
    | succ index ih => simp only [collectSegs, all, ih]
  have ascending : ¬ zeroQuery.order = 1 := by decide
  have unlimited : ¬ 0 < zeroQuery.limit := by decide
  simp only [collect, segs, if_neg ascending, if_neg unlimited]

/-- The segments of a log of stored events collect to stored events whose text is the log. -/
theorem collectSegs_logged {segs : Segs} (count : Nat)
    (logged : ∀ index < count, ∀ file, segs index = some file →
      ∃ events, (∀ event ∈ events, event.Stored) ∧ Wrote events file) :
    (∀ event ∈ collectSegs segs none count, event.Stored) ∧
      segText (collectSegs segs none count) = logBytes segs count := by
  induction count with
  | zero => exact ⟨fun event listed => absurd listed List.not_mem_nil, rfl⟩
  | succ index ih =>
    obtain ⟨stored, text⟩ := ih fun other below => logged other (by omega)
    have all (events : List Event) : events.filter (eventMatches · none) = events := by
      simp [eventMatches]
    rw [collectSegs, logBytes, all]
    cases found : segs index with
    | none =>
      have nothing : fileEvents ((none : Option CString).getD []) = [] := by decide
      rw [nothing]
      exact ⟨stored, text⟩
    | some file =>
      obtain ⟨events, eventsStored, wrote⟩ := logged index (Nat.lt_succ_self index) file found
      obtain rfl := (wrote_iff eventsStored).mp wrote
      rw [Option.getD_some, fileEvents_segText eventsStored]
      constructor
      · intro event listed
        rcases List.mem_append.mp listed with here | later
        · exact eventsStored event here
        · exact stored event later
      · rw [segText, List.flatMap_append, ← segText, ← segText, text]

/-- An event with a number and texts that fit is written as one line, which is read back as the
same event; and exporting a log of such lines reproduces its bytes. -/
theorem log_roundtrip {event : Event} (stored : event.Stored) {store : Store}
    (logged : Logged store) {query : Option Query} (whole : query = none ∨ query = some zeroQuery) :
    (∃ body, fmtLine 4096 event = some (body ++ [newline]) ∧ newline ∉ body ∧
      parseEvent (body ++ [newline]) = some event) ∧
    (opsExportEvents store query quietExport).rc = 0 ∧
    (opsExportEvents store query quietExport).file =
      some (logBytes (setDefaultDir store).segs store.maxFiles) := by
  constructor
  · refine ⟨lineBody event, fmtLine_fits stored.toFits, ?_, parseEvent_lineBody stored⟩
    intro feed
    have plain := lineBody_plain event newline feed
    cases plain
  · have files : (setDefaultDir store).maxFiles = store.maxFiles := by
      unfold setDefaultDir
      split <;> rfl
    have collected : collect (setDefaultDir store) query =
        collectSegs (setDefaultDir store).segs none store.maxFiles := by
      rcases whole with rfl | rfl
      · rw [collect, files]
      · rw [collect_zeroQuery, collect, files]
    obtain ⟨events, text⟩ := collectSegs_logged store.maxFiles logged
    have lines := exportLines_stored events 0 []
    rw [List.nil_append, text] at lines
    have opened : ¬ quietExport.fopen ≠ 0 := by decide
    have closed : quietExport.fclose = false := rfl
    simp only [opsExportEvents, collected, if_neg opened, lines, closed, Bool.false_eq_true,
      false_and, if_false, if_true, and_self]

/-- An event with separators, line ends and backslashes in its texts. -/
def awkwardEvent : Event where
  seq := 7
  ts := -1
  subject := lit "a|b"
  action := lit "x\\y"
  target := lit "line\nend\r"
  detail := []
  result := -2147483648

/-- A store whose main file holds the line of that event. -/
def awkwardStore : Store :=
  { storeInit (lit "/log") with
    disk := fun _ index => if index = 0 then some (segText [awkwardEvent]) else none }

/-- The text of that event, and the export of the log that holds it. -/
theorem log_roundtrip_awkward :
    (∃ body, fmtLine 4096 awkwardEvent = some (body ++ [newline]) ∧ newline ∉ body ∧
      parseEvent (body ++ [newline]) = some awkwardEvent) ∧
    (opsExportEvents awkwardStore none quietExport).rc = 0 ∧
    (opsExportEvents awkwardStore none quietExport).file =
      some (logBytes (setDefaultDir awkwardStore).segs awkwardStore.maxFiles) := by
  have stored : awkwardEvent.Stored :=
    ⟨⟨by decide, by decide, by decide, by decide⟩, by decide⟩
  have logged : Logged awkwardStore := by
    intro index _ file found
    refine ⟨[awkwardEvent], by simpa using stored, ?_⟩
    rw [wrote_iff (by simpa using stored)]
    have held : (if index = 0 then some (segText [awkwardEvent]) else none) = some file := found
    split at held
    · exact (Option.some.inj held).symm
    · cases held
  exact log_roundtrip stored logged (.inl rfl)

end HwrunOs.Audit
