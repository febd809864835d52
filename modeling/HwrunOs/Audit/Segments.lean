import HwrunOs.Audit.Store

/-!
# Segments of a log

The segment files of a directory hold a list of event lists, the newest first. Reading and
rotating the files is reading and cutting that list, as long as no file is missing between two
others.
-/

namespace HwrunOs.Audit

open HwrunOs.Bytes

/-! ## One file -/

/-- The text of a file of events. -/
def segText (part : List Event) : CString := part.flatMap fun event => lineBody event ++ [newline]

/-- The events of a file are read back. -/
theorem fileEvents_segText {part : List Event} (stored : ∀ event ∈ part, event.Stored) :
    fileEvents (segText part) = part := by
  have shape : segText part = (part.map lineBody).flatMap (· ++ [newline]) := by
    rw [segText, List.flatMap_map]
  have lines : ∀ line ∈ part.map lineBody, newline ∉ line ∧ line.length + 1 < 4096 := by
    intro line found
    obtain ⟨event, member, rfl⟩ := List.mem_map.mp found
    have short := lineBody_length (stored event member).toFits
    refine ⟨fun feed => ?_, by omega⟩
    have plain := lineBody_plain event newline feed
    cases plain
  rw [fileEvents, shape, fgetsLines_flatMap _ lines, List.map_map, List.filterMap_map]
  have read : ∀ event ∈ part,
      (parseEvent ∘ (fun line => line ++ [newline]) ∘ lineBody) event = some event :=
    fun event member => parseEvent_lineBody (stored event member)
  rw [List.filterMap_congr read, List.filterMap_some]

/-- A file with events is not empty. -/
theorem segText_filled {part : List Event} (filled : part ≠ []) : segText part ≠ [] := by
  obtain ⟨event, rest, rfl⟩ := List.exists_cons_of_ne_nil filled
  simp [segText]

/-- A line at the end of a file. -/
theorem segText_append (part : List Event) (event : Event) :
    segText (part ++ [event]) = segText part ++ (lineBody event ++ [newline]) := by
  simp [segText]

/-! ## All files -/

/-- The segment files hold a list of event lists, the newest first. -/
def Holds (segs : Segs) (parts : List (List Event)) : Prop :=
  ∀ index, segs index = parts[index]?.map segText

/-- Files beyond the list are missing. -/
theorem Holds.missing {segs : Segs} {parts : List (List Event)} (holds : Holds segs parts)
    {index : Nat} (beyond : parts.length ≤ index) : segs index = none := by
  rw [holds, List.getElem?_eq_none beyond]
  rfl

/-- A query reads the events of the files it looks at, the oldest first. -/
theorem collectSegs_holds {segs : Segs} {parts : List (List Event)} (holds : Holds segs parts)
    (stored : ∀ part ∈ parts, ∀ event ∈ part, event.Stored) (count : Nat) :
    collectSegs segs none count = (parts.take count).reverse.flatten := by
  induction count with
  | zero => rfl
  | succ index ih =>
    have file : (fileEvents ((segs index).getD [])).filter (eventMatches · none) =
        parts[index]?.getD [] := by
      have all (events : List Event) : events.filter (eventMatches · none) = events := by
        simp [eventMatches]
      rw [all, holds]
      cases found : parts[index]? with
      | none => rfl
      | some part => exact fileEvents_segText (stored part (List.mem_of_getElem? found))
    rw [collectSegs, file, ih, List.take_add_one, List.reverse_append, List.flatten_append]
    cases parts[index]? <;> simp

/-! ## Rotation -/

/-- Without failures every file moves up by one, when no file is missing between two others. -/
theorem shiftUp_quiet (now : Int64) (count : Nat) (segs : Segs)
    (joined : ∀ index < count, segs index = none → segs (index + 1) = none) :
    shiftUp (quietHost now) count segs =
      (fun index =>
        if index = 0 then if count = 0 then segs 0 else none
        else if index ≤ count then segs (index - 1) else segs index, 0) := by
  induction count generalizing segs with
  | zero =>
    refine Prod.ext (funext fun index => ?_) rfl
    cases index <;> simp [shiftUp]
  | succ count ih =>
    -- The file that moves first leaves its place empty for the next one.
    have moved : ∀ index, renameSeg segs count (count + 1) index =
        if index = count then none
        else if index = count + 1 then segs count else segs index := by
      intro index
      rw [renameSeg]
      cases source : segs count with
      | none =>
        have above := joined count (by omega) source
        dsimp only
        by_cases here : index = count
        · rw [if_pos here, here, source]
        · rw [if_neg here]
          by_cases next : index = count + 1
          · rw [if_pos next, next, above]
          · rw [if_neg next]
      | some file =>
        by_cases here : index = count
        · simp [here]
        · by_cases next : index = count + 1
          · simp [next]
          · simp [here, next]
    have joined' : ∀ index < count, renameSeg segs count (count + 1) index = none →
        renameSeg segs count (count + 1) (index + 1) = none := by
      intro index below absent
      rw [moved, if_neg (by omega), if_neg (by omega)] at absent
      rw [moved]
      by_cases last : index + 1 = count
      · rw [if_pos last]
      · rw [if_neg last, if_neg (by omega)]
        exact joined index (by omega) absent
    have quiet : ¬ (quietHost now).move (count + 1) ≠ 0 := by simp [quietHost]
    rw [shiftUp, if_neg quiet, ih _ joined']
    refine Prod.ext (funext fun index => ?_) rfl
    simp only [moved]
    grind

/-- Without failures the listed files are gone and the others as before. -/
theorem dropOld_quiet (now : Int64) (indices : List Nat) (segs : Segs) :
    dropOld (quietHost now) indices segs =
      (fun index => if index ∈ indices then none else segs index, 0) := by
  induction indices generalizing segs with
  | nil => simp [dropOld]
  | cons first rest ih =>
    have quiet : ¬ (quietHost now).unlink first ≠ 0 := by simp [quietHost]
    rw [dropOld, if_neg quiet, ih]
    refine Prod.ext (funext fun index => ?_) rfl
    simp only [List.mem_cons, Function.update_apply]
    grind

/-- Without failures a rotation that keeps two or more segments moves every file up by one and
drops those beyond the limit. -/
theorem rotate_quiet (now : Int64) {maxFiles : Nat} (several : 1 < maxFiles)
    (few : maxFiles ≤ segMax) {segs : Segs} {parts : List (List Event)}
    (holds : Holds segs parts) (bound : parts.length ≤ segMax) :
    ∃ after, rotate (quietHost now) maxFiles segs = (after, 0) ∧ after 0 = none ∧
      ∀ index, after (index + 1) = (parts.take (maxFiles - 1))[index]?.map segText := by
  have joined : ∀ index < maxFiles - 1, segs index = none → segs (index + 1) = none := by
    intro index _ absent
    rw [holds, Option.map_eq_none_iff, List.getElem?_eq_none_iff] at absent
    exact holds.missing (by omega)
  rw [rotate, if_neg (by omega), shiftUp_quiet now _ _ joined]
  dsimp only
  rw [if_neg (by simp), dropOld_quiet]
  refine ⟨_, rfl, ?_, ?_⟩
  · have first : 0 ∉ List.range' maxFiles (segMax - maxFiles) := by
      rw [List.mem_range'_1]
      omega
    rw [if_neg first, if_pos rfl, if_neg (by omega)]
  · intro index
    simp only [List.mem_range'_1, List.getElem?_take, Nat.add_eq_zero_iff, Nat.add_sub_cancel]
    by_cases kept : index < maxFiles - 1
    · rw [if_neg (by omega), if_neg (by omega), if_pos (by omega), if_pos kept, holds]
    · rw [if_neg kept]
      by_cases dropped : index + 1 < segMax
      · rw [if_pos (by omega)]
        rfl
      · rw [if_neg (by omega), if_neg (by omega), if_neg (by omega)]
        exact holds.missing (by omega)

end HwrunOs.Audit
