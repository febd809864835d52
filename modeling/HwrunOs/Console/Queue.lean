import HwrunOs.Console.Session

/-!
# A session is a queue of bytes

What a session is for is a queue without bounds: bytes are put in one by one, whole lines are taken
out, and a clear drops everything. A run of writes, reads and clears of an active session does what
the queue does with the same bytes, so that neither the block behind it nor the way in which the
bytes were divided into writes can be seen.
-/

namespace HwrunOs.Console

open HwrunOs.Blocks HwrunOs.Bytes HwrunOs.Runs

variable {γ : Type}

/-! ## Runs of a session -/

/-- A call on a session, with what it finds of memory. -/
inductive Call where
  /-- `console_write`. -/
  | write (buf : Option (List UInt8)) (memory : Option (Nat → UInt8))
  /-- `console_read_line`. -/
  | readLine (args : ReadArgs)
  /-- `console_clear`. -/
  | clear

/-- One call. -/
def sessionStep (s : Session γ) : Call → Session γ × Outcome
  | .write buf memory =>
    let (written, outcome, _) := consoleWrite s buf memory
    (written, outcome)
  | .readLine args => consoleReadLine s args
  | .clear => consoleClear s

/-- The calls of a run with their outcomes. -/
def trace (s : Session γ) : List Call → List (Call × Outcome)
  | [] => []
  | call :: rest => (call, (sessionStep s call).2) :: trace (sessionStep s call).1 rest

/-- The session after a run. -/
def after (s : Session γ) (calls : List Call) : Session γ :=
  run (fun s call => (sessionStep s call).1) s calls

/-- The lines read since the last clear. -/
def readSince (lines : List (List UInt8)) : Call × Outcome → List (List UInt8)
  | (.readLine _, outcome) => lines ++ outcome.line.toList
  | (.clear, outcome) => if outcome.rc = 0 then [] else lines
  | (.write _ _, _) => lines

/-- The bytes written since the last clear. -/
def writtenSince (bytes : List UInt8) : Call × Outcome → List UInt8
  | (.write (some data) _, outcome) => if outcome.rc = 0 then bytes ++ data else bytes
  | (.write none _, _) | (.readLine _, _) => bytes
  | (.clear, outcome) => if outcome.rc = 0 then [] else bytes

/-- What the reads of a run returned. -/
def readOutcomes (history : List (Call × Outcome)) : List Outcome :=
  history.filterMap fun
    | (.readLine _, outcome) => some outcome
    | _ => none

/-! ## The queue -/

/-- What is asked of a queue. -/
inductive Request where
  /-- Put a byte in. -/
  | push (byte : UInt8)
  /-- Take a line out. -/
  | read (args : ReadArgs)
  /-- Drop everything. -/
  | clear

/-- Take a line out of a queue: none when there is no whole line or no room for it. -/
def queueRead (queue : List UInt8) (args : ReadArgs) : List UInt8 × Outcome :=
  if args.buf && args.cap ≠ 0 && args.n then
    match cutAt newline queue with
    | none => (queue, ⟨eagain, none, some 0⟩)
    | some (line, rest) =>
      if args.cap ≤ line.length then (queue, ⟨enobufs, none, some 0⟩)
      else (rest, ⟨0, some line, some line.length⟩)
  else (queue, .code einval)

/-- The queue after requests. -/
def queueAfter (queue : List UInt8) : List Request → List UInt8
  | [] => queue
  | .push byte :: rest => queueAfter (queue ++ [byte]) rest
  | .read args :: rest => queueAfter (queueRead queue args).1 rest
  | .clear :: rest => queueAfter [] rest

/-- What the reads among requests return. -/
def queueAnswers (queue : List UInt8) : List Request → List Outcome
  | [] => []
  | .push byte :: rest => queueAnswers (queue ++ [byte]) rest
  | .read args :: rest => (queueRead queue args).2 :: queueAnswers (queueRead queue args).1 rest
  | .clear :: rest => queueAnswers [] rest

/-- What a call asks of the queue: the bytes of a write that succeeded, one by one. -/
def requests : Call × Outcome → List Request
  | (.write (some data) _, outcome) => if outcome.rc = 0 then data.map .push else []
  | (.write none _, _) => []
  | (.readLine args, _) => [.read args]
  | (.clear, _) => [.clear]

/-- The queue after requests in two parts. -/
theorem queueAfter_append (queue : List UInt8) (front back : List Request) :
    queueAfter queue (front ++ back) = queueAfter (queueAfter queue front) back := by
  induction front generalizing queue with
  | nil => rfl
  | cons request rest ih => cases request <;> exact ih _

/-- What the reads return in two parts. -/
theorem queueAnswers_append (queue : List UInt8) (front back : List Request) :
    queueAnswers queue (front ++ back) =
      queueAnswers queue front ++ queueAnswers (queueAfter queue front) back := by
  induction front generalizing queue with
  | nil => rfl
  | cons request rest ih =>
    cases request with
    | push byte => exact ih _
    | read args => exact congrArg _ (ih _)
    | clear => exact ih _

/-- Bytes put in one by one are put in. -/
theorem queueAfter_push (queue data : List UInt8) :
    queueAfter queue (data.map .push) = queue ++ data := by
  induction data generalizing queue with
  | nil => exact (List.append_nil queue).symm
  | cons byte rest ih =>
    rw [List.map_cons, queueAfter, ih, List.append_assoc]
    rfl

/-- Nothing is read by that. -/
theorem queueAnswers_push (queue data : List UInt8) :
    queueAnswers queue (data.map .push) = [] := by
  induction data generalizing queue with
  | nil => rfl
  | cons byte rest ih => exact ih _

/-! ## One call -/

/-- An append puts the bytes behind the buffered ones. -/
theorem contents_sessAppend {buffer appended : LineBuffer} {data : List UInt8}
    {memory : Option (Nat → UInt8)} (done : sessAppend buffer data memory = some appended) :
    appended.contents = buffer.contents ++ data := by
  have allocated := buffer.allocated
  have used := buffer.len_le
  unfold sessAppend at done
  split at done
  · cases memory with
    | none => cases done
    | some fill =>
      obtain rfl := Option.some.inj done
      have enough : buffer.len + data.length + 1 ≤ doubled (buffer.len + data.length + 1)
          (if buffer.cap ≠ 0 then buffer.cap else 64) (by split <;> omega) :=
        need_le_doubled _ _ _
      show (terminate _ _ _).take _ = _
      rw [take_terminate, take_realloc used, LineBuffer.contents]
      rw [length_realloc (by omega)]
      exact enough
  · obtain rfl := Option.some.inj done
    show (terminate _ _ _).take _ = _
    rw [take_terminate (by omega), LineBuffer.contents]

/-- What is left when a line is taken out. -/
theorem contents_consume (buffer : LineBuffer) {pos : Nat} (found : pos < buffer.len) :
    (consume buffer pos found).contents = buffer.contents.drop (pos + 1) := by
  have used := buffer.len_le
  unfold consume
  dsimp only
  split
  · have moved : ((buffer.buf.drop (pos + 1)).take (buffer.len - (pos + 1))).length =
        buffer.len - (pos + 1) := by
      rw [List.length_take, List.length_drop]
      omega
    have whole := @take_terminate buffer.buf 0
      ((buffer.buf.drop (pos + 1)).take (buffer.len - (pos + 1))) (by omega)
    rw [moved, Nat.zero_add, List.take_zero, List.nil_append] at whole
    show (terminate _ _ _).take (buffer.len - (pos + 1)) = _
    rw [whole, LineBuffer.contents, List.drop_take]
  · have last : buffer.contents.length ≤ pos + 1 := by
      rw [buffer.length_contents]
      omega
    rw [List.drop_eq_nil_of_le last]
    rfl

/-- A write that succeeds puts its bytes into the queue; one that fails changes nothing. -/
theorem consoleWrite_spec (s : Session γ) (buf : Option (List UInt8))
    (memory : Option (Nat → UInt8)) :
    (∃ data, buf = some data ∧ (consoleWrite s buf memory).2.1.rc = 0 ∧
      (consoleWrite s buf memory).1.active = s.active ∧
      (consoleWrite s buf memory).1.buffer.contents = s.buffer.contents ++ data) ∨
    ((consoleWrite s buf memory).2.1.rc ≠ 0 ∧ (consoleWrite s buf memory).1 = s) := by
  unfold consoleWrite
  split
  · rename_i data active
    cases done : sessAppend s.buffer data memory with
    | none =>
      right
      simp [Session.append, done, Outcome.code, enomem]
    | some appended =>
      left
      refine ⟨data, rfl, ?_⟩
      simp [Session.append, done, Outcome.code, contents_sessAppend done]
  · right
    simp [Outcome.code, einval]

/-- A read takes from an active session what the queue of its bytes gives. -/
theorem consoleReadLine_spec {s : Session γ} (active : s.active = true) (args : ReadArgs) :
    (consoleReadLine s args).1.active = true ∧
      (consoleReadLine s args).1.buffer.contents = (queueRead s.buffer.contents args).1 ∧
      (consoleReadLine s args).2 = (queueRead s.buffer.contents args).2 := by
  unfold consoleReadLine queueRead
  rw [if_pos active, cutAt_idxOf?]
  by_cases good : (args.buf && args.cap ≠ 0 && args.n) = true
  · rw [if_pos good, if_pos good]
    split
    · rename_i found
      rw [firstNewline] at found
      rw [found]
      exact ⟨active, rfl, rfl⟩
    · rename_i pos found
      have inside := firstNewline_lt found
      have used := s.buffer.len_le
      have line : s.buffer.contents.take pos = s.buffer.buf.take pos := by
        rw [LineBuffer.contents, List.take_take, Nat.min_eq_left (by omega)]
      have length : (s.buffer.buf.take pos).length = pos := by
        rw [List.length_take]
        omega
      rw [firstNewline] at found
      rw [found]
      simp only [Option.map_some, line, length]
      by_cases full : args.cap ≤ pos
      · rw [if_pos full, if_pos full]
        exact ⟨active, rfl, rfl⟩
      · rw [if_neg full, if_neg full]
        exact ⟨active, contents_consume _ inside, rfl⟩
  · rw [if_neg good, if_neg good]
    exact ⟨active, rfl, rfl⟩

/-- A read that fails consumes nothing. -/
theorem consoleReadLine_failed (s : Session γ) (args : ReadArgs)
    (failed : (consoleReadLine s args).2.rc ≠ 0) : (consoleReadLine s args).1 = s := by
  revert failed
  unfold consoleReadLine
  split
  · split
    · split
      · exact fun _ => rfl
      · split
        · exact fun _ => rfl
        · exact fun failed => absurd rfl failed
    · exact fun _ => rfl
  · exact fun _ => rfl

/-- A call does to the session what its requests do to the queue. -/
theorem sessionStep_spec {s : Session γ} (active : s.active = true) (call : Call) :
    (sessionStep s call).1.active = true ∧
      (sessionStep s call).1.buffer.contents =
        queueAfter s.buffer.contents (requests (call, (sessionStep s call).2)) ∧
      readOutcomes [(call, (sessionStep s call).2)] =
        queueAnswers s.buffer.contents (requests (call, (sessionStep s call).2)) := by
  cases call with
  | write buf memory =>
    show (consoleWrite s buf memory).1.active = true ∧
      (consoleWrite s buf memory).1.buffer.contents =
        queueAfter _ (requests (.write buf memory, (consoleWrite s buf memory).2.1)) ∧
      readOutcomes [(.write buf memory, (consoleWrite s buf memory).2.1)] =
        queueAnswers _ (requests (.write buf memory, (consoleWrite s buf memory).2.1))
    rcases consoleWrite_spec s buf memory with ⟨data, rfl, success, stays, bytes⟩ | ⟨failed, same⟩
    · rw [requests, if_pos success, queueAfter_push, queueAnswers_push]
      exact ⟨stays.trans active, bytes, rfl⟩
    · have nothing : requests (.write buf memory, (consoleWrite s buf memory).2.1) = [] := by
        cases buf with
        | none => rfl
        | some data => rw [requests, if_neg failed]
      rw [nothing, same]
      exact ⟨active, rfl, rfl⟩
  | readLine args =>
    obtain ⟨stays, bytes, outcome⟩ := consoleReadLine_spec active args
    exact ⟨stays, bytes, congrArg ([·]) outcome⟩
  | clear =>
    have cleared : consoleClear s = ({ s with buffer := .null }, .code 0) := if_pos active
    show (consoleClear s).1.active = true ∧ (consoleClear s).1.buffer.contents = [] ∧ _
    rw [cleared]
    exact ⟨active, rfl, rfl⟩

/-! ## Runs -/

/-- A run of an active session is a run of the queue. -/
theorem session_refines_queue {s : Session γ} (active : s.active = true) (calls : List Call) :
    (after s calls).active = true ∧
      (after s calls).buffer.contents =
        queueAfter s.buffer.contents ((trace s calls).flatMap requests) ∧
      readOutcomes (trace s calls) =
        queueAnswers s.buffer.contents ((trace s calls).flatMap requests) := by
  induction calls generalizing s with
  | nil => exact ⟨active, rfl, rfl⟩
  | cons call rest ih =>
    obtain ⟨stays, bytes, outcome⟩ := sessionStep_spec active call
    obtain ⟨remains, contents, outcomes⟩ := ih stays
    refine ⟨remains, ?_, ?_⟩
    · show (after (sessionStep s call).1 rest).buffer.contents = _
      rw [contents, bytes, trace, List.flatMap_cons, queueAfter_append]
    · have split : readOutcomes (trace s (call :: rest)) =
          readOutcomes [(call, (sessionStep s call).2)] ++
            readOutcomes (trace (sessionStep s call).1 rest) :=
        List.filterMap_append (l := [(call, (sessionStep s call).2)])
      rw [split, outcome, outcomes, bytes, trace, List.flatMap_cons, queueAnswers_append]

/-- A read that returns a line takes it and its newline off the front of the queue. -/
theorem queueRead_line {queue line : List UInt8} {args : ReadArgs}
    (read : (queueRead queue args).2.line = some line) :
    queue = line ++ newline :: (queueRead queue args).1 ∧ newline ∉ line ∧
      (queueRead queue args).2.rc = 0 ∧ (queueRead queue args).2.n = some line.length ∧
      line.length < args.cap := by
  unfold queueRead at read ⊢
  by_cases good : (args.buf && args.cap ≠ 0 && args.n) = true
  · rw [if_pos good] at read ⊢
    cases cut : cutAt newline queue with
    | none => simp [cut] at read
    | some parts =>
      obtain ⟨front, back⟩ := parts
      obtain ⟨whole, absent⟩ := cutAt_parts cut
      simp only [cut] at read ⊢
      by_cases full : args.cap ≤ front.length
      · simp [full] at read
      · simp only [if_neg full, Option.some.injEq] at read ⊢
        subst read
        exact ⟨whole, absent, trivial, rfl, by omega⟩
  · rw [if_neg good] at read
    cases read

/-- A read that returns no line leaves the queue. -/
theorem queueRead_none {queue : List UInt8} {args : ReadArgs}
    (read : (queueRead queue args).2.line = none) : (queueRead queue args).1 = queue := by
  revert read
  unfold queueRead
  split
  · split
    · exact fun _ => rfl
    · split
      · exact fun _ => rfl
      · exact fun read => absurd read (Option.some_ne_none _)
  · exact fun _ => rfl

/-- What was read since the last clear and what is buffered is what was written since then. -/
theorem read_and_buffered {s : Session γ} (active : s.active = true) (calls : List Call)
    {lines : List (List UInt8)} {bytes : List UInt8}
    (before : lines.flatMap (· ++ [newline]) ++ s.buffer.contents = bytes) :
    ((trace s calls).foldl readSince lines).flatMap (· ++ [newline]) ++
      (after s calls).buffer.contents = (trace s calls).foldl writtenSince bytes := by
  induction calls generalizing s lines bytes with
  | nil => exact before
  | cons call rest ih =>
    obtain ⟨stays, contents, -⟩ := sessionStep_spec active call
    refine ih stays ?_
    rw [contents, ← before]
    cases call with
    | write buf memory =>
      cases buf with
      | none => rfl
      | some data =>
        by_cases success : (sessionStep s (.write (some data) memory)).2.rc = 0
        · rw [requests, if_pos success, queueAfter_push, readSince, writtenSince, if_pos success,
            List.append_assoc]
        · rw [requests, if_neg success, readSince, writtenSince, if_neg success, queueAfter]
    | readLine args =>
      have outcome : (sessionStep s (.readLine args)).2 = (queueRead s.buffer.contents args).2 :=
        (consoleReadLine_spec active args).2.2
      rw [requests, queueAfter, queueAfter, readSince, writtenSince, outcome]
      cases read : (queueRead s.buffer.contents args).2.line with
      | none => rw [queueRead_none read, Option.toList_none, List.append_nil]
      | some line =>
        obtain ⟨whole, -⟩ := queueRead_line read
        conv_rhs => rw [whole]
        simp
    | clear =>
      have success : (sessionStep s .clear).2.rc = 0 := by
        simp [sessionStep, consoleClear, active, Outcome.code]
      rw [requests, queueAfter, queueAfter, readSince, writtenSince, if_pos success, if_pos success]
      rfl

/-- Lines without a newline in front of further bytes are the first lines of the whole. -/
theorem splitOn_lines {lines : List (List UInt8)} (plain : ∀ line ∈ lines, newline ∉ line)
    (rest : List UInt8) :
    (lines.flatMap (· ++ [newline]) ++ rest).splitOn newline = lines ++ rest.splitOn newline := by
  induction lines with
  | nil => rfl
  | cons line lines ih =>
    have later := ih fun other listed => plain other (List.mem_cons_of_mem _ listed)
    rw [List.flatMap_cons, List.append_assoc, List.append_assoc, List.singleton_append,
      List.splitOn_append_cons_self_of_not_mem (plain line List.mem_cons_self), later,
      List.cons_append]

/-- A line that was read has no newline. -/
theorem readSince_plain {s : Session γ} (active : s.active = true) (calls : List Call)
    {lines : List (List UInt8)} (plain : ∀ line ∈ lines, newline ∉ line) :
    ∀ line ∈ (trace s calls).foldl readSince lines, newline ∉ line := by
  induction calls generalizing s lines with
  | nil => exact plain
  | cons call rest ih =>
    obtain ⟨stays, -⟩ := sessionStep_spec active call
    refine ih stays ?_
    cases call with
    | write buf memory => exact plain
    | readLine args =>
      intro line listed
      rcases List.mem_append.mp listed with old | new
      · exact plain line old
      · have outcome : (sessionStep s (.readLine args)).2 =
            (queueRead s.buffer.contents args).2 := (consoleReadLine_spec active args).2.2
        rw [outcome, Option.mem_toList] at new
        exact (queueRead_line new).2.1
    | clear =>
      rw [readSince]
      split
      · simp
      · exact plain

/-- An opened session with any output callback. -/
def openedSession (name : Field 32) (id : Nat) (callback : Option γ) : Session γ :=
  consoleBind (.opened name id) callback

/-- After every run of writes, reads and clears of an opened session, the lines read since the last
clear, each with its newline, and the bytes still buffered are the bytes written since then. The
lines are the first lines of these bytes. A read that fails consumes nothing. Runs that put in
the same bytes between the same reads and clears read the same and leave the same. -/
theorem session_is_queue (name : Field 32) (id : Nat) (callback : Option γ) (calls : List Call) :
    ((trace (openedSession name id callback) calls).foldl readSince []).flatMap (· ++ [newline]) ++
        (after (openedSession name id callback) calls).buffer.contents =
      (trace (openedSession name id callback) calls).foldl writtenSince [] ∧
    (trace (openedSession name id callback) calls).foldl readSince [] <+:
      ((trace (openedSession name id callback) calls).foldl writtenSince []).splitOn newline ∧
    (∀ args,
      (consoleReadLine (after (openedSession name id callback) calls) args).2.rc ≠ 0 →
        (consoleReadLine (after (openedSession name id callback) calls) args).1 =
          after (openedSession name id callback) calls) ∧
    ∀ other : List Call,
      (trace (openedSession name id callback) other).flatMap requests =
          (trace (openedSession name id callback) calls).flatMap requests →
        readOutcomes (trace (openedSession name id callback) other) =
            readOutcomes (trace (openedSession name id callback) calls) ∧
          (after (openedSession name id callback) other).buffer.contents =
            (after (openedSession name id callback) calls).buffer.contents := by
  have active : (openedSession name id callback).active = true := rfl
  have before : ([] : List (List UInt8)).flatMap (· ++ [newline]) ++
      (openedSession name id callback).buffer.contents = [] := rfl
  have bytes := read_and_buffered active calls before
  refine ⟨bytes, ?_, ?_, ?_⟩
  · rw [← bytes, splitOn_lines (readSince_plain active calls (by simp))]
    exact List.prefix_append _ _
  · exact fun args failed => consoleReadLine_failed _ args failed
  · intro other same
    obtain ⟨-, contents, outcomes⟩ := session_refines_queue active calls
    obtain ⟨-, otherContents, otherOutcomes⟩ := session_refines_queue active other
    rw [contents, outcomes, otherContents, otherOutcomes, same]
    exact ⟨rfl, rfl⟩

end HwrunOs.Console
