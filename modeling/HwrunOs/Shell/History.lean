import HwrunOs.Shell.Line
import HwrunOs.Library.Rings

/-!
# The history of the shell

`shell_impl.c`: the lines are kept in a ring of 100 slots, with the next slot and the number of
lines as two integers. A line is found by its position from the oldest on, with a remainder that
is negative when the ring has gone around.
-/

namespace HwrunOs.Shell

open HwrunOs.Bytes HwrunOs.Rings

/-! ## Operations -/

/-- `SHELL_HISTORY_MAX`. -/
def shellHistoryMax : Nat := 100

/-- A call that changes the history. -/
inductive HistoryCall where
  /-- `history_append`, of a null pointer too. -/
  | append (line : Option CString)
  /-- `history_clear`. -/
  | clear
  deriving DecidableEq

/-- `history_append` and `history_clear`, with their return codes. -/
def historyCall (history : History) : HistoryCall → History × Int
  | .append none => (history, einval)
  | .append (some line) => if line = [] then (history, einval) else (historyAppend history line, 0)
  | .clear => ({ State.start.history with slots := history.slots }, 0)

/-- `history_count`. -/
def historyCount (history : History) : Int := history.count.val

/-- The slot of `history_get`: the remainder of C has the sign of the dividend. -/
def historySlot (history : History) (idx : Int) : Int :=
  let slot := ((history.write.val : Int) - history.count.val + idx).tmod shellHistoryMax
  if slot < 0 then slot + shellHistoryMax else slot

/-- The line in a slot of `g_history`; none for an index outside of the array. -/
def readSlot (history : History) (slot : Int) : Option CString :=
  if inside : 0 ≤ slot ∧ slot.toNat < 100 then some (history.slots ⟨slot.toNat, inside.2⟩).val
  else none

/-- `history_get` into a buffer of a size, or a null pointer: the return code, and the text that is
left in the buffer. -/
def historyGet (history : History) (idx : Int) (out : Option Nat) : Int × Option CString :=
  match out with
  | none | some 0 => (einval, none)
  | some (cap + 1) =>
    if idx < 0 ∨ historyCount history ≤ idx then (enoent, none)
    else (0, (readSlot history (historySlot history idx)).map (snprintf (cap + 1)))

/-- `buf_append` behind the bytes that are in the buffer. -/
def bufAppend (cap : Nat) (out piece : CString) : CString := out ++ piece.take (cap - out.length)

/-- A row of `history_list`, `"%4d  %s\n"` in a buffer of 512 bytes. -/
def historyRow (index : Nat) (line : CString) : CString :=
  let number := decimal (index + 1)
  snprintf 512 (List.replicate (4 - number.length) 32 ++ number ++ lit "  " ++ line ++ [newline])

/-- `history_list` into a buffer of a size, or a null pointer: the return code, and the bytes that
are written. -/
def historyList (history : History) (out : Option Nat) : Int × Option CString :=
  match out with
  | none | some 0 => (einval, none)
  | some cap => (0, some <|
      (List.range history.count.val).foldl (fun out index =>
        bufAppend cap out (historyRow index ((historyGet history index (some 255)).2.getD []))) [])

/-! ## The lines that were appended -/

/-- The line that a call appends: a null pointer and an empty line are refused. -/
def HistoryCall.line : HistoryCall → Option CString
  | .append (some (first :: rest)) => some (first :: rest)
  | _ => none

/-- The lines that were appended since the last `history_clear`, from the oldest on. -/
def sinceClear (calls : List HistoryCall) : List CString :=
  ((calls.reverse.takeWhile (· ≠ .clear)).reverse).filterMap HistoryCall.line

/-- The history after some calls. -/
def historyAfter (calls : List HistoryCall) : History :=
  calls.foldl (fun history call => (historyCall history call).1) State.start.history

/-- Nothing is left behind a clear. -/
theorem sinceClear_clear (calls : List HistoryCall) : sinceClear (calls ++ [.clear]) = [] := by
  simp [sinceClear]

/-- Any other call adds the line that it appends. -/
theorem sinceClear_append (calls : List HistoryCall) (line : Option CString) :
    sinceClear (calls ++ [.append line]) =
      sinceClear calls ++ (HistoryCall.append line).line.toList := by
  unfold sinceClear
  rw [List.reverse_append, List.reverse_singleton, List.singleton_append,
    List.takeWhile_cons_of_pos (by simp), List.reverse_cons, List.filterMap_append]
  cases appended : (HistoryCall.append line).line with
  | none => rw [List.filterMap_cons_none appended]; rfl
  | some text => rw [List.filterMap_cons_some appended]; rfl

/-! ## The ring keeps the last lines -/

/-- The ring keeps the end of some lines, each cut to its slot. -/
def History.Holds (history : History) (lines : List CString) : Prop :=
  Keeps history.slots history.write history.count.val (lines.map Field.copy)

/-- `history_append` adds a line. -/
theorem historyAppend_holds {history : History} {lines : List CString}
    (holds : history.Holds lines) (line : CString) :
    (historyAppend history line).Holds (lines ++ [line]) := by
  have pushed := Keeps.push holds (Field.copy line)
  have counted : ((historyAppend history line).count).val =
      if history.count.val < 100 then history.count.val + 1 else history.count.val := by
    show (if history.count.val < 100 then history.count + 1 else history.count).val = _
    have bound := history.count.isLt
    split
    · rw [Fin.val_add]
      exact Nat.mod_eq_of_lt (by show history.count.val + 1 < 101; omega)
    · rfl
  have next : (historyAppend history line).write = following history.write := by
    apply Fin.ext
    show (history.write + 1).val = (history.write.val + 1) % 100
    rw [Fin.val_add]
    rfl
  unfold History.Holds
  rw [List.map_append, List.map_singleton, counted, next]
  exact pushed

/-- One call keeps the correspondence with the lines since the last clear. -/
theorem historyCall_holds {history : History} {calls : List HistoryCall}
    (holds : history.Holds (sinceClear calls)) (call : HistoryCall) :
    (historyCall history call).1.Holds (sinceClear (calls ++ [call])) := by
  cases call with
  | clear =>
    rw [sinceClear_clear]
    exact Keeps.empty _ _
  | append line =>
    rw [sinceClear_append]
    cases line with
    | none =>
      show history.Holds (sinceClear calls ++ [])
      rw [List.append_nil]
      exact holds
    | some line =>
      cases line with
      | nil =>
        show history.Holds (sinceClear calls ++ [])
        rw [List.append_nil]
        exact holds
      | cons first rest => exact historyAppend_holds holds (first :: rest)

/-- After any calls the ring keeps the lines that were appended since the last clear. -/
theorem historyAfter_holds (calls : List HistoryCall) :
    (historyAfter calls).Holds (sinceClear calls) := by
  induction calls using List.reverseRecOn with
  | nil => exact Keeps.empty _ _
  | append_singleton calls call ih =>
    unfold historyAfter
    rw [List.foldl_append]
    exact historyCall_holds ih call

/-! ## Reading -/

/-- As many lines are counted as were appended, up to 100. -/
theorem History.Holds.counted {history : History} {lines : List CString}
    (holds : history.Holds lines) : historyCount history = min 100 lines.length := by
  have counted := Keeps.counted holds
  rw [List.length_map] at counted
  show (history.count.val : Int) = _
  omega

/-- The remainder of C by the size of the ring. -/
theorem tmod_hundred (value : Int) :
    value.tmod 100 = if 0 ≤ value then value % 100 else -(-value % 100) := by
  split
  · rename_i sign
    exact Int.tmod_eq_emod_of_nonneg sign
  · rename_i sign
    have mirrored : value.tmod 100 = -(-value).tmod 100 := by rw [Int.neg_tmod, Int.neg_neg]
    rw [mirrored, Int.tmod_eq_emod_of_nonneg (by omega)]

/-- The slot of a position is inside of the array, and is the one written so many writes ago. -/
theorem readSlot_historySlot {history : History} {index : Nat} (bound : index < history.count.val) :
    readSlot history (historySlot history index) =
      some (history.slots (before history.write (history.count.val - 1 - index))).val := by
  have inside := history.count.isLt
  have next := history.write.isLt
  have slot : historySlot history index =
      ((before history.write (history.count.val - 1 - index)).val : Int) := by
    show _ =
      (((history.write.val + (100 - 1 - (history.count.val - 1 - index))) % 100 : Nat) : Int)
    have remainder := tmod_hundred ((history.write.val : Int) - history.count.val + index)
    show (let slot := Int.tmod _ (100 : Int); if slot < 0 then slot + (100 : Int) else slot) = _
    rw [remainder]
    dsimp only
    split <;> split <;> omega
  unfold readSlot
  rw [slot, dif_pos ⟨by omega, (before history.write _).isLt⟩]
  rfl

/-- A position that is counted gives the line there, counted from the oldest one. -/
theorem historyGet_found {history : History} {lines : List CString} (holds : history.Holds lines)
    {index : Nat} {line : CString} (found : (lines.drop (lines.length - 100))[index]? = some line)
    (cap : Nat) : historyGet history index (some (cap + 1)) =
      (0, some (snprintf (cap + 1) (snprintf 255 line))) := by
  have counted := Keeps.counted holds
  rw [List.length_map] at counted
  obtain ⟨short, -⟩ := List.getElem?_eq_some_iff.mp found
  rw [List.length_drop] at short
  have bound : index < history.count.val := by omega
  have oldest := Keeps.oldest holds bound
  rw [List.length_map, ← List.map_drop, List.getElem?_map, found] at oldest
  have held := Option.some.inj oldest
  unfold historyGet
  dsimp only
  rw [if_neg (by unfold historyCount; omega), readSlot_historySlot bound, ← held]
  rfl

/-- Every other position is refused. -/
theorem historyGet_missing {history : History} {idx : Int}
    (outside : idx < 0 ∨ historyCount history ≤ idx) (cap : Nat) :
    historyGet history idx (some (cap + 1)) = (enoent, none) :=
  if_pos outside

/-- Pieces behind each other fill a buffer up to its size. -/
theorem foldl_bufAppend (cap : Nat) (pieces : List CString) (out : CString) :
    pieces.foldl (bufAppend cap) out = out ++ pieces.flatten.take (cap - out.length) := by
  induction pieces generalizing out with
  | nil => simp
  | cons piece rest ih =>
    rw [List.foldl_cons, ih, bufAppend, List.append_assoc, List.flatten_cons, List.take_append,
      List.length_append, List.length_take]
    congr 3
    omega

/-- The list has a row for each line that is kept, from the oldest on, as far as it fits. -/
theorem historyList_rows {history : History} {lines : List CString} (holds : history.Holds lines)
    (cap : Nat) : historyList history (some (cap + 1)) = (0, some <|
      (((lines.drop (lines.length - 100)).mapIdx fun index line =>
        historyRow index (snprintf 255 line)).flatten).take (cap + 1)) := by
  have counted := Keeps.counted holds
  rw [List.length_map] at counted
  have rows : (List.range history.count.val).map (fun index : Nat =>
        historyRow index ((historyGet history index (some 255)).2.getD [])) =
      (lines.drop (lines.length - 100)).mapIdx fun index line =>
        historyRow index (snprintf 255 line) := by
    apply List.ext_getElem
    · rw [List.length_map, List.length_range, List.length_mapIdx, List.length_drop]
      omega
    · intro index inside other
      rw [List.getElem_map, List.getElem_range, List.getElem_mapIdx]
      rw [historyGet_found holds (List.getElem?_eq_getElem _) 254]
      rw [snprintf_snprintf]
      rfl
  have folded := foldl_bufAppend (cap + 1) ((List.range history.count.val).map
    fun index : Nat => historyRow index ((historyGet history index (some 255)).2.getD [])) []
  rw [List.foldl_map, rows, List.nil_append, List.length_nil, Nat.sub_zero] at folded
  exact congrArg (fun text => ((0 : Int), some text)) folded

/-- Over every sequence of calls, the history counts and gives the last 100 lines that were appended
since the last clear. -/
theorem history_refines (calls : List HistoryCall) :
    historyCount (historyAfter calls) = min 100 (sinceClear calls).length ∧
      (∀ index line,
        ((sinceClear calls).drop ((sinceClear calls).length - 100))[index]? = some line →
          ∀ cap, historyGet (historyAfter calls) (index : Nat) (some (cap + 1)) =
            (0, some (snprintf (cap + 1) (line.take 254)))) ∧
      (∀ idx : Int, idx < 0 ∨ historyCount (historyAfter calls) ≤ idx → ∀ cap,
        historyGet (historyAfter calls) idx (some (cap + 1)) = (enoent, none)) ∧
      ∀ call, (historyCall (historyAfter calls) call).2 =
        if call = .clear ∨ call.line.isSome then 0 else einval := by
  have holds := historyAfter_holds calls
  refine ⟨holds.counted, ?_, ?_, ?_⟩
  · intro index line found cap
    exact historyGet_found holds found cap
  · intro idx outside cap
    exact historyGet_missing outside cap
  · intro call
    cases call with
    | clear => rfl
    | append line =>
      cases line with
      | none => rfl
      | some line =>
        cases line with
        | nil => rfl
        | cons first rest => rfl

end HwrunOs.Shell
