import HwrunOs.Audit.Sequence

/-!
# Appends that fail

Every call that an append makes to the system can fail, on the way or at the end. What the append
reports is compared with what is left in the files: a number stands for a line in the main file,
and an error for a log that has lost nothing.
-/

namespace HwrunOs.Audit

open HwrunOs.Bytes

/-! ## What an append reports -/

/-- A file has a line as one of its lines. -/
def HasLine (file line : CString) : Prop :=
  ∃ front back, file = front ++ (line ++ back) ∧ lineEnded front = true

/-- An append does what it reports. -/
structure Reported (store : Store) (event : Event) (host : Host) : Prop where
  /-- A number is that of the event, and its line is in the main file. -/
  written : ∀ seq, (opsAppend store event host).2 = .ok seq →
    seq = (appendCopy store event host.now).2.seq ∧
      HasLine (((opsAppend store event host).1.segs 0).getD [])
        (appendedLine store event host.now)
  /-- With an error the counter is the same; one that was not set yet may be read. -/
  counter : ∀ error, (opsAppend store event host).2 = .error error →
    (opsAppend store event host).1.nextSeq = store.nextSeq ∨
      store.nextSeq = 0 ∧
        (opsAppend store event host).1.nextSeq = (seedSeq (setDefaultDir store)).nextSeq
  /-- With an error a query returns every event that it returned before. -/
  kept : ∀ error, (opsAppend store event host).2 = .error error →
    ∀ found ∈ (opsQuery store none).2,
      found ∈ (opsQuery (opsAppend store event host).1 none).2

/-! ## When it does -/

/-- The events that are read from a segment. -/
def segEvents (segs : Segs) (index : Nat) : List Event := fileEvents ((segs index).getD [])

/-- Every call of a rotation succeeds. -/
def rotationDone (host : Host) (maxFiles : Nat) : Bool :=
  if maxFiles ≤ 1 then decide (host.move 0 = 0)
  else
    (List.range (maxFiles - 1)).all (fun index => decide (host.move (index + 1) = 0)) &&
      (List.range' maxFiles (segMax - maxFiles)).all fun index => decide (host.unlink index = 0)

/-- No call fails before the append writes. -/
def reachesWrite (store : Store) (event : Event) (host : Host) : Bool :=
  opensFile event host && (!rotates store event host.now ||
    (rotationDone host store.maxFiles && decide (host.reopen = 0)))

/-- The append writes and `fwrite` takes the whole line. -/
def takesWhole (store : Store) (event : Event) (host : Host) : Bool :=
  reachesWrite store event host &&
    decide ((takenLine host (appendedLine store event host.now)).length =
      (appendedLine store event host.now).length)

/-- A rotation has given up a segment: the oldest one kept, when the one before it has taken its
place, or the only one, when it is truncated. -/
def givesUp (store : Store) (event : Event) (host : Host) (index : Nat) : Bool :=
  startsRotation store event host &&
    decide (index + 1 = store.maxFiles ∧ host.move index = 0) &&
      ((setDefaultDir store).segs (index - 1)).isSome

/-- The bytes of a line are put behind those of a segment, the main file that is not rotated. -/
def writesBehind (store : Store) (event : Event) (host : Host) (index : Nat) : Bool :=
  decide (index = 0) && reachesWrite store event host && !rotates store event host.now

/-- An event can be read from a segment that the append has not touched, or from the main file
with what has reached it. -/
def Left (store : Store) (event : Event) (host : Host) (found : Event) : Prop :=
  (∃ index < store.maxFiles, givesUp store event host index = false ∧
    writesBehind store event host index = false ∧
      found ∈ segEvents (setDefaultDir store).segs index) ∨
  (reachesWrite store event host = true ∧ 0 < store.maxFiles ∧
    found ∈ fileEvents (fileWritten store event host ++
      reachedLine host (appendedLine store event host.now)))

/-- The condition of an append: a line that `fwrite` takes whole reaches the end of a file that
ends with a whole line, unless the file has that line already; and when no line is taken whole, the
events of a segment that is given up or has a part of the line behind it can still be read. -/
structure Harmless (store : Store) (event : Event) (host : Host) : Prop where
  /-- The line is in the file. -/
  whole : takesWhole store event host = true →
    (reachedLine host (appendedLine store event host.now) = appendedLine store event host.now ∧
      lineEnded (fileWritten store event host) = true) ∨
    HasLine (fileWritten store event host) (appendedLine store event host.now)
  /-- Nothing is lost. -/
  lost : takesWhole store event host = false → ∀ index < store.maxFiles,
    givesUp store event host index = true ∨ writesBehind store event host index = true →
      ∀ found ∈ segEvents (setDefaultDir store).segs index, Left store event host found

/-! ## Lines of a file -/

/-- A line put behind the bytes of a file, or a part of it, is a line of the file exactly when
the whole line stands behind a whole line, or the file had it before. -/
theorem hasLine_reached {file body reached : CString} (plain : newline ∉ body)
    (front : reached <+: body ++ [newline]) :
    HasLine (file ++ reached) (body ++ [newline]) ↔
      (reached = body ++ [newline] ∧ lineEnded file = true) ∨ HasLine file (body ++ [newline]) := by
  constructor
  · rintro ⟨before, back, same, ended⟩
    have split : before ++ (body ++ [newline]) <+: file ++ reached :=
      ⟨back, by rw [same]; simp⟩
    rcases List.prefix_or_prefix_of_prefix split (List.prefix_append file reached) with
      inside | ⟨rest, beyond⟩
    · right
      obtain ⟨rest, rfl⟩ := inside
      exact ⟨before, rest, by simp, ended⟩
    · have within : rest <+: reached := by
        rw [← beyond] at split
        exact (List.prefix_append_right_inj file).mp split
      cases rest using List.reverseRecOn with
      | nil =>
        right
        rw [List.append_nil] at beyond
        exact ⟨before, [], by simp [beyond], ended⟩
      | append_singleton rest byte =>
        -- The line feed of the line lies in what was put behind, which has one only at its end.
        left
        rw [← List.append_assoc, ← List.append_assoc] at beyond
        obtain ⟨bytes, feed⟩ := List.append_inj' beyond rfl
        have final : byte = newline := by simpa using feed
        have whole : rest ++ [byte] = body ++ [newline] := by
          rcases List.prefix_concat_iff.mp (within.trans front) with equal | short
          · exact equal
          · exact absurd (short.subset (by simp [final])) plain
        have start : rest = body := (List.append_inj' whole rfl).1
        rw [whole] at within
        rw [start] at bytes
        rw [List.append_cancel_right bytes]
        exact ⟨front.eq_of_length (Nat.le_antisymm front.length_le within.length_le), ended⟩
  · rintro (⟨rfl, ended⟩ | ⟨before, back, rfl, ended⟩)
    · exact ⟨file, [], by simp, ended⟩
    · exact ⟨before, back ++ reached, by simp, ended⟩

/-! ## What a rotation leaves -/

/-- An event can be read from one of the first segments. -/
def Readable (segs : Segs) (count : Nat) (found : Event) : Prop :=
  ∃ index < count, found ∈ segEvents segs index

/-- A segment that is missing has no events. -/
theorem segEvents_none {segs : Segs} {index : Nat} (missing : segs index = none) :
    segEvents segs index = [] := by
  rw [segEvents, missing]
  rfl

/-- A query without a filter returns what can be read from the segments kept. -/
theorem mem_collectSegs (segs : Segs) (count : Nat) (found : Event) :
    found ∈ collectSegs segs none count ↔ Readable segs count found := by
  induction count with
  | zero => simp [collectSegs, Readable]
  | succ count ih =>
    have all : (fileEvents ((segs count).getD [])).filter (eventMatches · none) =
        segEvents segs count := by
      simp [eventMatches, segEvents]
    rw [collectSegs, all, List.mem_append, ih]
    constructor
    · intro either
      rcases either with here | ⟨index, below, there⟩
      · exact ⟨count, Nat.lt_succ_self count, here⟩
      · exact ⟨index, by omega, there⟩
    · rintro ⟨index, below, there⟩
      by_cases last : index = count
      · rw [last] at there
        exact .inl there
      · exact .inr ⟨index, by omega, there⟩

/-- A segment that is moved leaves its place free. -/
theorem renameSeg_source (segs : Segs) (source : Nat) :
    renameSeg segs source (source + 1) source = none := by
  cases shape : segs source with
  | none => simp [renameSeg, shape]
  | some file => simp [renameSeg, shape]

/-- Moving a segment to a place loses what stood in that place, if there was a segment to move. -/
theorem readable_renameSeg {segs : Segs} {source count : Nat} (inside : source + 1 < count)
    (found : Event) :
    Readable (renameSeg segs source (source + 1)) count found ↔
      ∃ index < count, ¬ (index = source + 1 ∧ (segs source).isSome = true) ∧
        found ∈ segEvents segs index := by
  cases shape : segs source with
  | none => simp [renameSeg, shape, Readable]
  | some file =>
    have moved : segEvents (renameSeg segs source (source + 1)) (source + 1) =
        segEvents segs source := by
      simp [segEvents, renameSeg, shape]
    have left : segEvents (renameSeg segs source (source + 1)) source = [] := by
      apply segEvents_none
      simp [renameSeg, shape]
    have other {index : Nat} (first : index ≠ source) (second : index ≠ source + 1) :
        segEvents (renameSeg segs source (source + 1)) index = segEvents segs index := by
      simp [segEvents, renameSeg, shape, first, second]
    constructor
    · rintro ⟨index, below, there⟩
      by_cases up : index = source + 1
      · rw [up, moved] at there
        exact ⟨source, by omega, by omega, there⟩
      · have stays : index ≠ source := by
          intro here
          rw [here, left] at there
          cases there
        rw [other stays up] at there
        exact ⟨index, below, fun gone => up gone.1, there⟩
    · rintro ⟨index, below, kept, there⟩
      have up : index ≠ source + 1 := fun same => kept ⟨same, rfl⟩
      by_cases here : index = source
      · rw [here, ← moved] at there
        exact ⟨source + 1, inside, there⟩
      · rw [← other here up] at there
        exact ⟨index, below, there⟩

/-- Behind a free place nothing is lost by moving the segments up, wherever that stops. -/
theorem readable_shiftUp_free (host : Host) (count top : Nat) {segs : Segs}
    (free : segs count = none) (inside : count < top) (found : Event) :
    Readable (shiftUp host count segs).1 top found ↔ Readable segs top found := by
  induction count generalizing segs with
  | zero => exact Iff.rfl
  | succ count ih =>
    rw [shiftUp]
    split
    · exact Iff.rfl
    · rw [ih (renameSeg_source segs count) (by omega), readable_renameSeg inside]
      constructor
      · rintro ⟨index, below, _, there⟩
        exact ⟨index, below, there⟩
      · rintro ⟨index, below, there⟩
        refine ⟨index, below, fun gone => ?_, there⟩
        rw [gone.1, segEvents_none free] at there
        cases there

/-- Moving the segments up loses the last one alone, once its place is taken. -/
theorem readable_shiftUp (host : Host) (count : Nat) (segs : Segs) (found : Event) :
    Readable (shiftUp host (count + 1) segs).1 (count + 2) found ↔
      ∃ index < count + 2,
        ¬ (index = count + 1 ∧ host.move (count + 1) = 0 ∧ (segs count).isSome = true) ∧
          found ∈ segEvents segs index := by
  rw [shiftUp]
  by_cases failed : host.move (count + 1) ≠ 0
  · rw [if_pos failed]
    constructor
    · rintro ⟨index, below, there⟩
      exact ⟨index, below, fun gone => failed gone.2.1, there⟩
    · rintro ⟨index, below, _, there⟩
      exact ⟨index, below, there⟩
  · rw [if_neg failed,
      readable_shiftUp_free host count _ (renameSeg_source segs count) (by omega),
      readable_renameSeg (by omega)]
    simp [not_not.mp failed]

/-- A rotation that keeps two or more segments loses the oldest one, once its place is taken. -/
theorem readable_rotate (host : Host) {maxFiles : Nat} (several : 1 < maxFiles) (segs : Segs)
    (found : Event) :
    Readable (rotate host maxFiles segs).1 maxFiles found ↔
      ∃ index < maxFiles, ¬ (index + 1 = maxFiles ∧ host.move index = 0 ∧
        (segs (index - 1)).isSome = true) ∧ found ∈ segEvents segs index := by
  obtain ⟨count, rfl⟩ : ∃ count, maxFiles = count + 2 := ⟨maxFiles - 2, by omega⟩
  have dropped : Readable (rotate host (count + 2) segs).1 (count + 2) found ↔
      Readable (shiftUp host (count + 1) segs).1 (count + 2) found := by
    rw [rotate, if_neg (by omega)]
    dsimp only
    rw [show count + 2 - 1 = count + 1 by omega]
    split
    · exact Iff.rfl
    · have same : ∀ index < count + 2,
          segEvents (dropOld host (List.range' (count + 2) (segMax - (count + 2)))
            (shiftUp host (count + 1) segs).1).1 index =
              segEvents (shiftUp host (count + 1) segs).1 index := by
        intro index below
        have other : index ∉ List.range' (count + 2) (segMax - (count + 2)) := by
          rw [List.mem_range'_1]
          omega
        rw [segEvents, dropOld_other _ _ _ other, segEvents]
      constructor
      · rintro ⟨index, below, there⟩
        exact ⟨index, below, same index below ▸ there⟩
      · rintro ⟨index, below, there⟩
        exact ⟨index, below, (same index below).symm ▸ there⟩
  rw [dropped, readable_shiftUp]
  constructor
  · rintro ⟨index, below, kept, there⟩
    refine ⟨index, below, fun gone => ?_, there⟩
    obtain rfl : index = count + 1 := by omega
    exact kept ⟨rfl, gone.2⟩
  · rintro ⟨index, below, kept, there⟩
    refine ⟨index, below, fun gone => ?_, there⟩
    obtain rfl := gone.1
    exact kept ⟨rfl, gone.2⟩

/-- A rotation that keeps one segment loses that one, once it is truncated. -/
theorem readable_truncated (host : Host) {segs : Segs} {base : CString}
    (present : segs 0 = some base) (found : Event) :
    Readable (rotate host 1 segs).1 1 found ↔
      ∃ index < 1, ¬ (index + 1 = 1 ∧ host.move index = 0 ∧ (segs (index - 1)).isSome = true) ∧
        found ∈ segEvents segs index := by
  rw [rotate, if_pos (Nat.le_refl 1)]
  by_cases failed : host.move 0 ≠ 0
  · rw [if_pos failed]
    constructor
    · rintro ⟨index, below, there⟩
      obtain rfl : index = 0 := by omega
      exact ⟨0, below, fun gone => failed gone.2.1, there⟩
    · rintro ⟨index, below, _, there⟩
      exact ⟨index, below, there⟩
  · have empty : segEvents (Function.update segs 0 ((segs 0).map fun _ => [])) 0 = [] := by
      rw [segEvents, Function.update_self, present]
      rfl
    rw [if_neg failed]
    constructor
    · rintro ⟨index, below, there⟩
      obtain rfl : index = 0 := by omega
      rw [empty] at there
      cases there
    · rintro ⟨index, below, kept, _⟩
      obtain rfl : index = 0 := by omega
      exact absurd ⟨rfl, not_not.mp failed, by rw [present]; rfl⟩ kept

/-- When moving the segments up succeeds. -/
theorem shiftUp_rc (host : Host) (count : Nat) (segs : Segs) :
    (shiftUp host count segs).2 = 0 ↔ ∀ index < count, host.move (index + 1) = 0 := by
  induction count generalizing segs with
  | zero => simp [shiftUp]
  | succ count ih =>
    rw [shiftUp]
    by_cases failed : host.move (count + 1) ≠ 0
    · rw [if_pos failed]
      constructor
      · exact fun done => absurd done failed
      · exact fun all => absurd (all count (Nat.lt_succ_self count)) failed
    · rw [if_neg failed, ih]
      constructor
      · intro all index below
        by_cases last : index = count
        · rw [last]
          exact not_not.mp failed
        · exact all index (by omega)
      · exact fun all index below => all index (by omega)

/-- When dropping old segments succeeds. -/
theorem dropOld_rc (host : Host) (indices : List Nat) (segs : Segs) :
    (dropOld host indices segs).2 = 0 ↔ ∀ index ∈ indices, host.unlink index = 0 := by
  induction indices generalizing segs with
  | nil => simp [dropOld]
  | cons first rest ih =>
    rw [dropOld]
    by_cases failed : host.unlink first ≠ 0
    · rw [if_pos failed]
      simp [failed]
    · rw [if_neg failed, ih]
      simp [not_not.mp failed]

/-- When a rotation succeeds. -/
theorem rotate_rc_iff (host : Host) (maxFiles : Nat) (segs : Segs) :
    (rotate host maxFiles segs).2 = 0 ↔ rotationDone host maxFiles = true := by
  rw [rotate, rotationDone]
  by_cases one : maxFiles ≤ 1
  · rw [if_pos one, if_pos one, decide_eq_true_eq]
    split
    · exact Iff.rfl
    · rename_i moved
      exact iff_of_true rfl (not_not.mp moved)
  · rw [if_neg one, if_neg one]
    dsimp only
    have moved := shiftUp_rc host (maxFiles - 1) segs
    by_cases failed : (shiftUp host (maxFiles - 1) segs).2 ≠ 0
    · rw [if_pos failed]
      have stuck : ¬ ∀ index < maxFiles - 1, host.move (index + 1) = 0 :=
        fun all => failed (moved.mpr all)
      simp only [Bool.and_eq_true, List.all_eq_true, List.mem_range, decide_eq_true_eq]
      exact iff_of_false failed fun all => stuck all.1
    · have all := moved.mp (not_not.mp failed)
      rw [if_neg failed, dropOld_rc]
      simp only [Bool.and_eq_true, List.all_eq_true, List.mem_range, decide_eq_true_eq]
      exact (and_iff_right all).symm

/-! ## What an append leaves -/

/-- A query after an append returns what can be read from the segments that it left. -/
theorem query_after (store : Store) (event : Event) (now : Int64) (segs : Segs) (found : Event) :
    found ∈ (opsQuery ((appendCopy store event now).1.setSegs segs) none).2 ↔
      Readable segs store.maxFiles found := by
  have dir : ((appendCopy store event now).1.setSegs segs).dir ≠ [] := by
    show (appendCopy store event now).1.dir ≠ []
    rw [appendCopy_dir]
    exact setDefaultDir_dir store
  have limit : ((appendCopy store event now).1.setSegs segs).maxFiles = store.maxFiles :=
    appendCopy_maxFiles store event now
  show found ∈ collectSegs _ none _ ↔ _
  rw [setDefaultDir_eq dir, segs_setSegs, limit, mem_collectSegs]

/-- A query before an append returns what can be read from its segments. -/
theorem query_before (store : Store) (found : Event) :
    found ∈ (opsQuery store none).2 ↔
      Readable (setDefaultDir store).segs store.maxFiles found := by
  show found ∈ collectSegs _ none _ ↔ _
  rw [setDefaultDir_maxFiles, mem_collectSegs]

/-- What can be read is read from the bytes of the segments. -/
theorem readable_congr {segs other : Segs}
    (same : ∀ index, (segs index).getD [] = (other index).getD []) (count : Nat) (found : Event) :
    Readable segs count found ↔ Readable other count found := by
  simp only [Readable, segEvents, same]

/-- Opening the main file does not change what can be read. -/
theorem readable_openBase (segs : Segs) (count : Nat) (found : Event) :
    Readable (openBase segs) count found ↔ Readable segs count found := by
  apply readable_congr
  intro index
  by_cases base : index = 0
  · rw [base, openBase, Function.update_self, Option.getD_some]
  · rw [openBase, Function.update_of_ne base]

/-- What can be read once bytes are put behind those of the main file. -/
theorem readable_written (segs : Segs) (bytes : CString) (count : Nat) (found : Event) :
    Readable (Function.update segs 0 (some bytes)) count found ↔
      (∃ index < count, index ≠ 0 ∧ found ∈ segEvents segs index) ∨
        (0 < count ∧ found ∈ fileEvents bytes) := by
  have base : segEvents (Function.update segs 0 (some bytes)) 0 = fileEvents bytes := by
    rw [segEvents, Function.update_self]
    rfl
  have other {index : Nat} (above : index ≠ 0) :
      segEvents (Function.update segs 0 (some bytes)) index = segEvents segs index := by
    rw [segEvents, Function.update_of_ne above, segEvents]
  constructor
  · rintro ⟨index, below, there⟩
    by_cases first : index = 0
    · rw [first, base] at there
      exact .inr ⟨by omega, there⟩
    · rw [other first] at there
      exact .inl ⟨index, below, first, there⟩
  · intro either
    rcases either with ⟨index, below, above, there⟩ | ⟨some_, there⟩
    · exact ⟨index, below, (other above).symm ▸ there⟩
    · exact ⟨0, some_, base.symm ▸ there⟩

/-- A rotation leaves the events of the segments that it has not given up. -/
theorem readable_rotated {store : Store} {event : Event} {host : Host}
    (opened : opensFile event host = true) (rotated : rotates store event host.now = true)
    {base : CString} (present : (setDefaultDir store).segs 0 = some base) (found : Event) :
    Readable (rotate host store.maxFiles (setDefaultDir store).segs).1 store.maxFiles found ↔
      ∃ index < store.maxFiles, givesUp store event host index = false ∧
        found ∈ segEvents (setDefaultDir store).segs index := by
  have gone (index : Nat) : givesUp store event host index = false ↔
      ¬ (index + 1 = store.maxFiles ∧ host.move index = 0 ∧
        ((setDefaultDir store).segs (index - 1)).isSome = true) := by
    rw [givesUp, startsRotation, opened, rotated, ← Bool.not_eq_true]
    simp [and_assoc]
  simp only [gone]
  by_cases several : 1 < store.maxFiles
  · exact readable_rotate host several _ found
  · by_cases one : store.maxFiles = 1
    · rw [one]
      exact readable_truncated host present found
    · have empty : store.maxFiles = 0 := by omega
      simp [Readable, empty]

/-- What is left by an append that stops before it opens and measures the main file. -/
theorem left_shut {store : Store} {event : Event} {host : Host}
    (shut : opensFile event host = false) (found : Event) :
    Left store event host found ↔ Readable (setDefaultDir store).segs store.maxFiles found := by
  simp [Left, Readable, givesUp, startsRotation, writesBehind, reachesWrite, shut]

/-- What is left by an append that stops behind a rotation it began. -/
theorem left_rotated {store : Store} {event : Event} {host : Host}
    (rotated : rotates store event host.now = true)
    (stops : reachesWrite store event host = false) (found : Event) :
    Left store event host found ↔
      ∃ index < store.maxFiles, givesUp store event host index = false ∧
        found ∈ segEvents (setDefaultDir store).segs index := by
  simp [Left, writesBehind, stops, rotated]

/-- The outcome of an append that reports an error. -/
structure Failed (store : Store) (event : Event) (host : Host) : Prop where
  /-- An error is returned. -/
  error : ∃ error, (opsAppend store event host).2 = .error error
  /-- The counter is the same or read. -/
  counter : (opsAppend store event host).1.nextSeq = store.nextSeq ∨
    store.nextSeq = 0 ∧
      (opsAppend store event host).1.nextSeq = (seedSeq (setDefaultDir store)).nextSeq
  /-- What is returned by a query. -/
  left : ∀ found, found ∈ (opsQuery (opsAppend store event host).1 none).2 ↔
    Left store event host found

/-- The counter of the copy is the one of the store unless that was not set. -/
theorem appendCopy_counter (store : Store) (event : Event) (now : Int64) :
    (appendCopy store event now).1.nextSeq = store.nextSeq ∨
      store.nextSeq = 0 ∧
        (appendCopy store event now).1.nextSeq = (seedSeq (setDefaultDir store)).nextSeq := by
  by_cases fresh : store.nextSeq = 0
  · exact .inr ⟨fresh, rfl⟩
  · left
    show (seedSeq (setDefaultDir store)).nextSeq = _
    rw [seedSeq, if_pos (by simpa using fresh), setDefaultDir_nextSeq]

/-- An append that ends with an error over some files. -/
theorem failed_of {store : Store} {event : Event} {host : Host} {segs : Segs} {error : Int}
    (ends : opsAppend store event host =
      ((appendCopy store event host.now).1.setSegs segs, .error error))
    (left : ∀ found, Readable segs store.maxFiles found ↔ Left store event host found) :
    Failed store event host := by
  refine ⟨⟨error, by rw [ends]⟩, ?_, fun found => ?_⟩
  · rw [ends]
    exact appendCopy_counter store event host.now
  · rw [ends, query_after, left]

/-- An append that does not open and measure the main file fails and leaves what it was. -/
theorem failed_shut {store : Store} {event : Event} {host : Host}
    (shut : opensFile event host = false) : Failed store event host := by
  by_cases accepted : event.Accepted
  · by_cases made : host.mkdir = 0
    · obtain ⟨segs, error, kept, ends⟩ := opsAppend_shut accepted made shut
      refine failed_of ends fun found => ?_
      rw [left_shut shut]
      rcases kept with rfl | rfl
      · exact Iff.rfl
      · exact readable_openBase _ _ _
    · have ends : opsAppend store event host = (setDefaultDir store, .error host.mkdir) := by
        rw [opsAppend, if_neg (not_or.mpr accepted), if_pos made]
      refine ⟨⟨_, by rw [ends]⟩, .inl ?_, fun found => ?_⟩
      · rw [ends, setDefaultDir_nextSeq]
      · rw [ends, query_before, left_shut shut, setDefaultDir_eq (setDefaultDir_dir store),
          setDefaultDir_maxFiles]
  · have ends : opsAppend store event host = (store, .error einval) := by
      rw [opsAppend, if_pos (not_not.mp fun checked => accepted (not_or.mp checked))]
    refine ⟨⟨_, by rw [ends]⟩, .inl (by rw [ends]), fun found => ?_⟩
    rw [ends, query_before, left_shut shut]

/-- What an append comes to: it fails, or its line is taken whole. -/
structure AppendOutcome (store : Store) (event : Event) (host : Host) : Prop where
  /-- An append whose line is not taken whole fails. -/
  failed : takesWhole store event host = false → Failed store event host
  /-- Otherwise it returns the number of the event, and what reaches the main file stands behind
  what it held. -/
  written : takesWhole store event host = true →
    (opsAppend store event host).2 = .ok (appendCopy store event host.now).2.seq ∧
    ((opsAppend store event host).1.segs 0).getD [] = fileWritten store event host ++
      reachedLine host (appendedLine store event host.now)

/-- An append that stops before its line is written fails. -/
theorem outcome_of_stop {store : Store} {event : Event} {host : Host}
    (stops : reachesWrite store event host = false) (failed : Failed store event host) :
    AppendOutcome store event host := by
  have short : ¬ takesWhole store event host = true := by
    rw [takesWhole, stops]
    exact Bool.false_ne_true
  exact ⟨fun _ => failed, fun whole => absurd whole short⟩

/-- What an append does that comes to write over some files: the bytes that reach the main file
stand behind what it held. -/
theorem written_of {store : Store} {event : Event} {host : Host} {target : Segs}
    (ends : opsAppend store event host = writeLine
      ((appendCopy store event host.now).1.setSegs target) host
        (appendedLine store event host.now))
    (writes : reachesWrite store event host = true)
    (held : (target 0).getD [] = fileWritten store event host)
    (kept : ∀ found, (∃ index < store.maxFiles, index ≠ 0 ∧ found ∈ segEvents target index) ↔
      ∃ index < store.maxFiles, givesUp store event host index = false ∧
        writesBehind store event host index = false ∧
          found ∈ segEvents (setDefaultDir store).segs index) :
    AppendOutcome store event host := by
  rw [writeLine_eq, held] at ends
  dsimp only at ends
  constructor
  · intro short
    have cut : (takenLine host (appendedLine store event host.now)).length ≠
        (appendedLine store event host.now).length := by
      intro whole
      rw [takesWhole, writes, decide_eq_true whole] at short
      cases short
    rw [if_pos cut] at ends
    refine failed_of ends fun found => ?_
    rw [readable_written, kept, Left, writes]
    simp
  · intro all
    have whole : ¬ (takenLine host (appendedLine store event host.now)).length ≠
        (appendedLine store event host.now).length := by
      rw [takesWhole, writes, Bool.true_and, decide_eq_true_eq] at all
      exact fun cut => cut all
    rw [if_neg whole] at ends
    have files := segs_setSegs (appendCopy store event host.now).1 (Function.update target 0
      (some (fileWritten store event host ++
        reachedLine host (appendedLine store event host.now))))
    rw [ends]
    refine ⟨rfl, ?_⟩
    apply (congrArg (fun segs : Segs => (segs 0).getD []) files).trans
    simp

/-- An append that opens and measures the main file writes to it, with or without a rotation, or
fails on the way. -/
theorem opened_outcome {store : Store} {event : Event} {host : Host}
    (opened : opensFile event host = true) :
    AppendOutcome store event host := by
  have ends := @opsAppend_opened store event host opened
  by_cases rotated : rotates store event host.now = true
  · obtain ⟨base, present, filled⟩ :=
      needsRotation_base ((rotates_eq store event host.now) ▸ rotated)
    rw [appendCopy_segs] at present
    have kept := readable_rotated opened rotated present
    have reaches : reachesWrite store event host =
        (rotationDone host store.maxFiles && decide (host.reopen = 0)) := by
      rw [reachesWrite, opened, rotated]
      rfl
    have rotation := rotate_rc_iff host store.maxFiles (setDefaultDir store).segs
    rw [if_pos rotated] at ends
    dsimp only at ends
    by_cases failed : (rotate host store.maxFiles (setDefaultDir store).segs).2 ≠ 0
    · have stops : reachesWrite store event host = false := by
        rw [reaches, Bool.eq_false_iff.mpr fun done => failed (rotation.mpr done)]
        rfl
      rw [if_pos failed] at ends
      refine outcome_of_stop stops (failed_of ends fun found => ?_)
      rw [kept, left_rotated rotated stops]
    have done := not_not.mp failed
    rw [if_neg failed] at ends
    by_cases lost : host.reopen ≠ 0
    · have stops : reachesWrite store event host = false := by
        rw [reaches, decide_eq_false lost, Bool.and_false]
      rw [if_pos lost] at ends
      refine outcome_of_stop stops (failed_of ends fun found => ?_)
      rw [kept, left_rotated rotated stops]
    have writes : reachesWrite store event host = true := by
      rw [reaches, rotation.mp done, decide_eq_true (not_not.mp lost)]
      rfl
    have empty := rotate_done host present store.maxFiles done
    rw [if_neg lost] at ends
    refine written_of ends writes ?_ fun found => ?_
    · rw [fileWritten, if_pos rotated, openBase, Function.update_self, Option.getD_some, empty]
    · have behind (index : Nat) : writesBehind store event host index = false := by
        rw [writesBehind, rotated]
        exact Bool.and_false _
      simp only [behind, true_and]
      rw [← kept, ← readable_openBase, Readable]
      have absent (index : Nat) (first : index = 0) : found ∉ segEvents (openBase
          (rotate host store.maxFiles (setDefaultDir store).segs).1) index := by
        rw [first, segEvents, openBase, Function.update_self, Option.getD_some, empty]
        exact List.not_mem_nil
      constructor
      · rintro ⟨index, below, _, there⟩
        exact ⟨index, below, there⟩
      · rintro ⟨index, below, there⟩
        exact ⟨index, below, fun first => absent index first there, there⟩
  · rw [Bool.not_eq_true] at rotated
    have writes : reachesWrite store event host = true := by
      rw [reachesWrite, opened, rotated]
      rfl
    rw [if_neg (by simp [rotated])] at ends
    refine written_of ends writes ?_ fun found => ?_
    · rw [fileWritten, rotated, openBase, Function.update_self]
      rfl
    · have stays (index : Nat) : givesUp store event host index = false := by
        rw [givesUp, startsRotation, rotated, Bool.and_false]
        rfl
      have behind (index : Nat) : writesBehind store event host index = false ↔ index ≠ 0 := by
        rw [writesBehind, writes, rotated]
        simp
      simp only [stays, behind, true_and]
      constructor
      · rintro ⟨index, below, above, there⟩
        rw [segEvents, openBase, Function.update_of_ne above] at there
        exact ⟨index, below, above, there⟩
      · rintro ⟨index, below, above, there⟩
        refine ⟨index, below, above, ?_⟩
        rw [segEvents, openBase, Function.update_of_ne above]
        exact there

/-- What an append does, whatever fails. -/
theorem append_outcome (store : Store) (event : Event) (host : Host) :
    AppendOutcome store event host := by
  by_cases opened : opensFile event host = true
  · exact opened_outcome opened
  · rw [Bool.not_eq_true] at opened
    have stops : reachesWrite store event host = false := by
      rw [reachesWrite, opened]
      rfl
    exact outcome_of_stop stops (failed_shut opened)

/-! ## The condition -/

/-- A part of a line begins it. -/
theorem reachedLine_begins (host : Host) (line : CString) : reachedLine host line <+: line := by
  have taken : takenLine host line <+: line := by
    rw [takenLine]
    split
    · exact List.prefix_refl _
    · exact List.take_prefix _ _
  rw [reachedLine]
  split
  · exact taken
  · exact (List.take_prefix _ _).trans taken

/-- A line has no line feed before its end. -/
theorem newline_not_mem_lineBody {event : Event} : newline ∉ lineBody event := by
  intro feed
  have plain := lineBody_plain event newline feed
  cases plain

/-- Whatever fails, an append does what it reports exactly when its condition holds. -/
theorem append_reported_iff (store : Store) (event : Event) (host : Host) :
    Reported store event host ↔ Harmless store event host := by
  have outcome := append_outcome store event host
  by_cases whole : takesWhole store event host = true
  · obtain ⟨number, file⟩ := outcome.written whole
    have lined : HasLine (((opsAppend store event host).1.segs 0).getD [])
        (appendedLine store event host.now) ↔
        (reachedLine host (appendedLine store event host.now) =
            appendedLine store event host.now ∧
          lineEnded (fileWritten store event host) = true) ∨
        HasLine (fileWritten store event host) (appendedLine store event host.now) := by
      rw [file]
      exact hasLine_reached newline_not_mem_lineBody (reachedLine_begins host _)
    constructor
    · intro reported
      refine ⟨fun _ => lined.mp (reported.written _ number).2, fun short => ?_⟩
      rw [whole] at short
      cases short
    · intro harmless
      refine ⟨fun seq ends => ⟨?_, lined.mpr (harmless.whole whole)⟩, fun error ends => ?_,
        fun error ends => ?_⟩
      · rw [number] at ends
        exact (Except.ok.inj ends).symm
      · rw [number] at ends
        cases ends
      · rw [number] at ends
        cases ends
  · rw [Bool.not_eq_true] at whole
    have failed := outcome.failed whole
    obtain ⟨code, error⟩ := failed.error
    constructor
    · intro reported
      refine ⟨fun all => ?_, fun _ index below _ found there => ?_⟩
      · rw [whole] at all
        cases all
      · apply (failed.left found).mp
        exact reported.kept code error found ((query_before store found).mpr ⟨index, below, there⟩)
    · intro harmless
      refine ⟨fun seq ends => ?_, fun _ _ => failed.counter, fun _ _ found asked => ?_⟩
      · rw [error] at ends
        cases ends
      · obtain ⟨index, below, there⟩ := (query_before store found).mp asked
        apply (failed.left found).mpr
        by_cases touched : givesUp store event host index = true ∨
            writesBehind store event host index = true
        · exact harmless.lost whole index below touched found there
        · rw [not_or, Bool.not_eq_true, Bool.not_eq_true] at touched
          exact .inl ⟨index, below, touched.1, touched.2, there⟩

/-- A disk that takes no byte when the file is closed. -/
def fullDisk : Host := { quietHost 0 with fclose := some 0 }

/-- A log of one file with one event, too large for another. -/
def lastLine : Store :=
  { storeInit (lit "/log") with
    maxBytes := 1
    maxFiles := 1
    disk := fun _ => Function.update (fun _ => none) 0
      (some (segText [⟨1, 1, lit "root", lit "login", [], [], 0⟩])) }

/-- A number is returned for a line that never reached the file, and an error from a rotation that
has removed the only event. -/
theorem lost_line_reported :
    ¬ Reported (storeInit (lit "/log")) loginEvent fullDisk ∧
      ¬ Reported lastLine loginEvent { quietHost 0 with reopen := -24 } := by
  constructor
  · intro reported
    have file : ((opsAppend (storeInit (lit "/log")) loginEvent fullDisk).1.segs 0).getD [] =
        [] := by decide +kernel
    obtain ⟨front, back, same, -⟩ := (reported.written 1 (by decide +kernel)).2
    rw [file] at same
    have empty := (List.append_eq_nil_iff.mp (List.append_eq_nil_iff.mp same.symm).2).1
    exact appendedLine_ne_nil _ _ _ empty
  · intro reported
    have after : (opsQuery (opsAppend lastLine loginEvent { quietHost 0 with reopen := -24 }).1
        none).2 = [] := by decide +kernel
    have asked := reported.kept (-24) (by decide +kernel) ⟨1, 1, lit "root", lit "login", [], [], 0⟩
      (by decide +kernel)
    rw [after] at asked
    cases asked

end HwrunOs.Audit
