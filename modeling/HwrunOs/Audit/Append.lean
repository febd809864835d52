import HwrunOs.Audit.Segments

/-!
# Appends without failures

Without failures of the system an append writes the line of its event to the newest file, or
begins a new file after a rotation, and gives out the number after the last one in the files.
-/

namespace HwrunOs.Audit

open HwrunOs.Bytes

/-! ## Writing one line -/

/-- The segments written are the segments read. -/
@[simp] theorem segs_setSegs (store : Store) (segs : Segs) : (store.setSegs segs).segs = segs :=
  Function.update_self _ _ _

/-- The last segments written count. -/
@[simp] theorem setSegs_setSegs (store : Store) (first second : Segs) :
    (store.setSegs first).setSegs second = store.setSegs second := by
  simp [Store.setSegs]

/-- Opening the main file does not change its size. -/
theorem needsRotation_openBase (store : Store) (line : CString) :
    needsRotation (store.setSegs (openBase store.segs)) line = needsRotation store line := by
  have same : (openBase store.segs 0).getD [] = (store.segs 0).getD [] := by simp [openBase]
  rw [needsRotation, segs_setSegs, same]
  rfl

/-- A main file that exists is opened as it is. -/
theorem openBase_eq {segs : Segs} {file : CString} (present : segs 0 = some file) :
    openBase segs = segs := by
  rw [openBase, present]
  exact Function.update_eq_self_iff.mpr present.symm

/-- Without failures a rotation succeeds. -/
theorem rotate_rc (now : Int64) (maxFiles : Nat) (segs : Segs) :
    (rotate (quietHost now) maxFiles segs).2 = 0 := by
  have up (count : Nat) : ∀ segs, (shiftUp (quietHost now) count segs).2 = 0 := by
    induction count with
    | zero => exact fun _ => rfl
    | succ count ih =>
      intro segs
      have quiet : ¬ (quietHost now).move (count + 1) ≠ 0 := by simp [quietHost]
      rw [shiftUp, if_neg quiet, ih]
  have quiet : ¬ (quietHost now).move 0 ≠ 0 := by simp [quietHost]
  by_cases one : maxFiles ≤ 1
  · rw [rotate, if_pos one, if_neg quiet]
  · rw [rotate, if_neg one]
    dsimp only
    rw [up, if_neg (by simp), dropOld_quiet]

/-- The segments after a line is written without failures. -/
def linedSegs (store : Store) (now : Int64) (line : CString) : Segs :=
  let opened := openBase store.segs
  let target :=
    if needsRotation store line then
      openBase (rotate (quietHost now) store.maxFiles opened).1
    else opened
  Function.update target 0 (some ((target 0).getD [] ++ line))

/-- Without failures the line is written and its number returned. -/
theorem appendLine_quiet (store : Store) (now : Int64) (line : CString) :
    appendLine store (quietHost now) line =
      ({ store.setSegs (linedSegs store now line) with nextSeq := store.nextSeq + 1 },
        .ok store.nextSeq) := by
  have write (target : Segs) : writeLine (store.setSegs target) (quietHost now) line =
      ({ store.setSegs (Function.update target 0 (some ((target 0).getD [] ++ line))) with
          nextSeq := store.nextSeq + 1 }, .ok store.nextSeq) := by
    simp [writeLine, quietHost, Store.setSegs, Store.segs]
  have calls : (quietHost now).fopen = 0 ∧ (quietHost now).fstat = 0 ∧
      (quietHost now).reopen = 0 := ⟨rfl, rfl, rfl⟩
  have rc := rotate_rc now store.maxFiles (openBase store.segs)
  have kept : (store.setSegs (openBase store.segs)).maxFiles = store.maxFiles := rfl
  rw [appendLine, if_neg (by simp [calls.1])]
  dsimp only
  rw [if_neg (by simp [calls.2.1]), needsRotation_openBase, linedSegs]
  by_cases rotated : needsRotation store line = true
  · rw [if_pos rotated, if_pos rotated, segs_setSegs, kept, rc, if_neg (by simp),
      if_neg (by simp [calls.2.2]), segs_setSegs, setSegs_setSegs, setSegs_setSegs, write]
  · rw [if_neg rotated, if_neg rotated, write]

/-- The list of files after an event is appended. -/
def grow (maxFiles : Nat) (rotated : Bool) (event : Event) (parts : List (List Event)) :
    List (List Event) :=
  if rotated then [event] :: parts.take (maxFiles - 1)
  else match parts with
    | [] => [[event]]
    | base :: older => (base ++ [event]) :: older

/-- A rotation begins a new file and keeps the newest ones. -/
theorem grow_rotated (maxFiles : Nat) (event : Event) (parts : List (List Event)) :
    grow maxFiles true event parts = [event] :: parts.take (maxFiles - 1) := by
  simp [grow]

/-- Writing the line of an event adds it to the newest file or to a new one. -/
theorem linedSegs_holds {store : Store} {parts : List (List Event)} (now : Int64) (event : Event)
    (holds : Holds store.segs parts) (bound : parts.length ≤ segMax)
    (some_ : 1 ≤ store.maxFiles) (few : store.maxFiles ≤ segMax)
    (single : needsRotation store (lineBody event ++ [newline]) = true → store.maxFiles ≤ 1 →
      store.segs 1 = none) :
    Holds (linedSegs store now (lineBody event ++ [newline]))
      (grow store.maxFiles (needsRotation store (lineBody event ++ [newline])) event parts) := by
  have line : segText [event] = lineBody event ++ [newline] := by simp [segText]
  unfold linedSegs grow
  dsimp only
  by_cases rotated : needsRotation store (lineBody event ++ [newline]) = true
  · -- The main file exists, since it is not empty.
    obtain ⟨base, older, rfl⟩ : ∃ base older, parts = base :: older := by
      cases parts with
      | nil =>
        have absent : store.segs 0 = none := holds 0
        simp [needsRotation, absent] at rotated
      | cons base older => exact ⟨base, older, rfl⟩
    have present : store.segs 0 = some (segText base) := holds 0
    rw [if_pos rotated, if_pos rotated, openBase_eq present]
    by_cases one : store.maxFiles ≤ 1
    · have alone : store.segs 1 = none := single rotated one
      have short : older = [] := by
        rw [holds, Option.map_eq_none_iff, List.getElem?_eq_none_iff] at alone
        exact List.length_eq_zero_iff.mp (by simpa using alone)
      subst short
      have quiet : ¬ (quietHost now).move 0 ≠ 0 := by simp [quietHost]
      have cut : store.maxFiles - 1 = 0 := by omega
      rw [rotate, if_pos one, if_neg quiet, present, cut]
      intro index
      cases index with
      | zero => simp [openBase, line]
      | succ index => simp [openBase, holds.missing]
    · obtain ⟨after, moved, empty, kept⟩ := rotate_quiet now (by omega) few holds bound
      rw [moved]
      intro index
      cases index with
      | zero => simp [openBase, empty, line]
      | succ index => simpa [openBase] using kept index
  · rw [if_neg rotated, if_neg rotated]
    cases parts with
    | nil =>
      have absent : store.segs 0 = none := holds 0
      intro index
      cases index with
      | zero => simp [openBase, absent, line]
      | succ index => simp [openBase, holds.missing]
    | cons base older =>
      have present : store.segs 0 = some (segText base) := holds 0
      rw [openBase_eq present, present]
      intro index
      cases index with
      | zero => simp [segText_append]
      | succ index => simpa using holds (index + 1)

/-! ## Runs -/

/-- A log and the events its appends stored, the oldest first. -/
structure Log where
  /-- The store. -/
  store : Store
  /-- Events of the successful appends. -/
  appended : List Event

/-- A call of a run. -/
inductive Action where
  /-- `append` at a time. -/
  | append (event : Event) (now : Int64)
  /-- `configure` of `audit.log.max_bytes`. -/
  | setMaxBytes (value : Option CString)
  /-- `configure` of `audit.log.max_files`. -/
  | setMaxFiles (value : Option CString)

/-- One call, without failures of the system. -/
def logStep (log : Log) : Action → Log
  | .append event now =>
    match opsAppend log.store event (quietHost now) with
    | (store, .ok seq) => ⟨store, log.appended ++ [event.stored seq now]⟩
    | (store, .error _) => ⟨store, log.appended⟩
  | .setMaxBytes value =>
    ⟨(configure log.store (some (lit "audit.log.max_bytes")) value).1, log.appended⟩
  | .setMaxFiles value =>
    ⟨(configure log.store (some (lit "audit.log.max_files")) value).1, log.appended⟩

/-- A new log in a directory. -/
def logInit (dir : CString) : Log := ⟨storeInit dir, []⟩

/-- The events of a query without conditions in ascending order. -/
def Log.events (log : Log) : List Event := (opsQuery log.store none).2

/-- `append` accepts the event. -/
def Event.Accepted (event : Event) : Prop := event.subject ≠ [] ∧ event.action ≠ []

instance (event : Event) : Decidable event.Accepted := inferInstanceAs (Decidable (_ ∧ _))

/-- Appending the event rotates the log. -/
def rotates (store : Store) (event : Event) (now : Int64) : Bool :=
  match fmtLine 4096 (appendCopy store event now).2 with
  | none => false
  | some line => needsRotation (appendCopy store event now).1 line

/-! ## The directory and the next number -/

/-- The default directory is set once. -/
theorem setDefaultDir_eq {store : Store} (set : store.dir ≠ []) : setDefaultDir store = store :=
  if_neg set

/-- After the default the directory is set. -/
theorem setDefaultDir_dir (store : Store) : (setDefaultDir store).dir ≠ [] := by
  unfold setDefaultDir
  split
  · show lit "/var/lib/hwrun/audit" ≠ []
    decide
  · assumption

/-- The default directory changes nothing else. -/
@[simp] theorem setDefaultDir_maxFiles (store : Store) :
    (setDefaultDir store).maxFiles = store.maxFiles := by
  unfold setDefaultDir
  split <;> rfl

/-- The default directory changes nothing else. -/
@[simp] theorem setDefaultDir_nextSeq (store : Store) :
    (setDefaultDir store).nextSeq = store.nextSeq := by
  unfold setDefaultDir
  split <;> rfl

/-- Reading the next number changes nothing else. -/
theorem seedSeq_eq (store : Store) :
    ∃ seq, seedSeq store = { store with nextSeq := seq } := by
  unfold seedSeq
  split
  · exact ⟨store.nextSeq, rfl⟩
  · split
    · exact ⟨1, rfl⟩
    · exact ⟨_, rfl⟩

/-- Reading the next number does not touch the files. -/
@[simp] theorem seedSeq_segs (store : Store) : (seedSeq store).segs = store.segs := by
  obtain ⟨seq, same⟩ := seedSeq_eq store
  rw [same]
  rfl

/-- Reading the next number does not change the limit. -/
@[simp] theorem seedSeq_maxFiles (store : Store) : (seedSeq store).maxFiles = store.maxFiles := by
  obtain ⟨seq, same⟩ := seedSeq_eq store
  rw [same]

/-- Reading the next number does not change the directory. -/
@[simp] theorem seedSeq_dir (store : Store) : (seedSeq store).dir = store.dir := by
  obtain ⟨seq, same⟩ := seedSeq_eq store
  rw [same]

/-- The highest number of a file is no less than any number read from it. -/
theorem seq_le_lastSeq {file : CString} : ∀ event ∈ fileEvents file, event.seq ≤ lastSeq file := by
  have above : ∀ (part : List Event) (start : UInt64),
      start ≤ part.foldl (fun last event => if last < event.seq then event.seq else last) start ∧
        ∀ event ∈ part, event.seq ≤
          part.foldl (fun last event => if last < event.seq then event.seq else last) start := by
    intro part
    induction part with
    | nil => intro start; exact ⟨UInt64.le_refl _, by simp⟩
    | cons first rest ih =>
      intro start
      rw [List.foldl_cons]
      have later := ih (if start < first.seq then first.seq else start)
      have grown : start ≤ (if start < first.seq then first.seq else start) ∧
          first.seq ≤ (if start < first.seq then first.seq else start) := by
        split
        · rename_i less
          exact ⟨UInt64.le_of_lt less, UInt64.le_refl _⟩
        · rename_i more
          exact ⟨UInt64.le_refl _, UInt64.not_lt.mp more⟩
      refine ⟨UInt64.le_trans grown.1 later.1, ?_⟩
      intro event found
      rcases List.mem_cons.mp found with rfl | inside
      · exact UInt64.le_trans grown.2 later.1
      · exact later.2 event inside
  exact (above (fileEvents file) 0).2

/-- The highest number of a file is no less than any number in it. -/
theorem lastSeq_ge {part : List Event} (stored : ∀ event ∈ part, event.Stored) :
    ∀ event ∈ part, event.seq ≤ lastSeq (segText part) := by
  intro event found
  apply seq_le_lastSeq
  rw [fileEvents_segText stored]
  exact found

/-! ## One append -/

/-- The stored copy fits its fields. -/
theorem stored_fits (event : Event) (seq : UInt64) (now : Int64) : (event.stored seq now).Fits :=
  ⟨snprintf_length _ (by decide), snprintf_length _ (by decide), snprintf_length _ (by decide),
    snprintf_length _ (by decide)⟩

/-- The line that an append writes. -/
def appendedLine (store : Store) (event : Event) (now : Int64) : CString :=
  lineBody (appendCopy store event now).2 ++ [newline]

/-- An accepted append without failures stores its copy. -/
theorem logStep_append {event : Event} (accepted : event.Accepted) (log : Log) (now : Int64) :
    logStep log (.append event now) =
      ⟨{ (appendCopy log.store event now).1.setSegs
            (linedSegs (appendCopy log.store event now).1 now
              (appendedLine log.store event now)) with
          nextSeq := (appendCopy log.store event now).1.nextSeq + 1 },
        log.appended ++ [(appendCopy log.store event now).2]⟩ := by
  have fits : (appendCopy log.store event now).2.Fits := stored_fits _ _ _
  have result : opsAppend log.store event (quietHost now) =
      appendLine (appendCopy log.store event now).1 (quietHost now)
        (appendedLine log.store event now) := by
    have checked : ¬ (event.subject = [] ∨ event.action = []) := not_or.mpr accepted
    rw [opsAppend, if_neg checked, if_neg (by simp [quietHost])]
    show (match fmtLine 4096 (appendCopy log.store event now).2 with
      | none => _
      | some line => _) = _
    rw [fmtLine_fits fits]
    rfl
  rw [logStep, result, appendLine_quiet]
  rfl

/-- A rejected append changes nothing. -/
theorem logStep_rejected {event : Event} (rejected : ¬ event.Accepted) (log : Log) (now : Int64) :
    logStep log (.append event now) = log := by
  have checked : event.subject = [] ∨ event.action = [] := by
    rw [Event.Accepted, not_and_or, not_not, not_not] at rejected
    exact rejected
  rw [logStep, opsAppend, if_pos checked]

/-- Whether an append rotates is decided on the line it writes. -/
theorem rotates_eq (store : Store) (event : Event) (now : Int64) :
    rotates store event now =
      needsRotation (appendCopy store event now).1 (appendedLine store event now) := by
  have fits : (appendCopy store event now).2.Fits := stored_fits _ _ _
  rw [rotates, fmtLine_fits fits]
  rfl

/-- After an append the files are those of the line written. -/
theorem append_segs {event : Event} (accepted : event.Accepted) (log : Log) (now : Int64) :
    (logStep log (.append event now)).store.segs =
        linedSegs (appendCopy log.store event now).1 now (appendedLine log.store event now) ∧
      setDefaultDir (logStep log (.append event now)).store =
        (logStep log (.append event now)).store := by
  rw [logStep_append accepted]
  refine ⟨Function.update_self _ _ _, setDefaultDir_eq ?_⟩
  show (seedSeq (setDefaultDir log.store)).dir ≠ []
  rw [seedSeq_dir]
  exact setDefaultDir_dir _

/-- Appending to the parts appends to what they hold, or cuts it at the front. -/
theorem grow_suffix {parts : List (List Event)} {appended : List Event}
    (suffix : parts.reverse.flatten <:+ appended) (maxFiles : Nat) (rotated : Bool)
    (event : Event) :
    (grow maxFiles rotated event parts).reverse.flatten <:+ appended ++ [event] := by
  obtain ⟨front, rfl⟩ := suffix
  cases rotated with
  | true =>
    have cut : (parts.take (maxFiles - 1)).reverse.flatten <:+ parts.reverse.flatten := by
      obtain ⟨before, same⟩ := List.reverse_suffix.mpr (List.take_prefix (maxFiles - 1) parts)
      rw [← same, List.flatten_append]
      exact List.suffix_append _ _
    obtain ⟨before, same⟩ := cut
    refine ⟨front ++ before, ?_⟩
    rw [← same, grow_rotated]
    simp
  | false =>
    refine ⟨front, ?_⟩
    cases parts <;> simp [grow]

/-- The files after an append are as few as before or within the limit, and none is empty. -/
theorem grow_length {parts : List (List Event)} {maxFiles : Nat} (some_ : 1 ≤ maxFiles)
    (rotated : Bool) (event : Event) :
    (grow maxFiles rotated event parts).length ≤ max maxFiles parts.length ∧
      (rotated = true → (grow maxFiles rotated event parts).length ≤ maxFiles) := by
  cases rotated with
  | true =>
    have cut : (grow maxFiles true event parts).length ≤ maxFiles := by
      rw [grow_rotated, List.length_cons, List.length_take]
      omega
    exact ⟨by omega, fun _ => cut⟩
  | false =>
    refine ⟨?_, by simp⟩
    cases parts with
    | nil => simpa [grow] using some_
    | cons base older => exact Nat.le_max_right _ _

/-- No file is empty after an append. -/
theorem grow_filled {parts : List (List Event)} (filled : ∀ part ∈ parts, part ≠ [])
    (maxFiles : Nat) (rotated : Bool) (event : Event) :
    ∀ part ∈ grow maxFiles rotated event parts, part ≠ [] := by
  intro part member
  cases rotated with
  | true =>
    rw [grow_rotated] at member
    rcases List.mem_cons.mp member with rfl | older
    · simp
    · exact filled part (List.mem_of_mem_take older)
  | false =>
    cases parts with
    | nil =>
      obtain rfl : part = [event] := by simpa [grow] using member
      simp
    | cons base older =>
      have cases_ : part = base ++ [event] ∨ part ∈ older := by simpa [grow] using member
      rcases cases_ with rfl | old
      · simp
      · exact filled part (List.mem_cons_of_mem _ old)

end HwrunOs.Audit
