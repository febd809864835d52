import HwrunOs.Shell.Handed
import HwrunOs.Shell.History

/-!
# Evaluating a line

`ops_eval` runs the words of a line as a builtin, or hands them to `/bin/sh` and reads what that
writes from a pipe, in whatever pieces it comes. Everything is put into the buffer of the caller by
`buf_append` or by the loop of `run_external`, which drop what does not fit. So the size of the
buffer decides how much of the text is seen, and nothing else.
-/

namespace HwrunOs.Shell

open HwrunOs.Bytes HwrunOs.Words

/-! ## The pipe -/

/-- What `read` does when it is called: it is given one byte more than a number, or fewer when there
are fewer or fewer are asked for, or it fails. -/
inductive PipeRead where
  /-- Some bytes, or none at the end. -/
  | bytes (count : Nat)
  /-- `EINTR`. -/
  | interrupted
  /-- Any other error. -/
  | failed
  deriving DecidableEq

/-- The loop of `run_external` on what the child still has to write; none when it has not come to
its end. -/
def readPipe (cap : Nat) (out stream : CString) : List PipeRead → Option CString
  | [] => none
  | .failed :: _ => some out
  | .interrupted :: rest => if out.length < cap then readPipe cap out stream rest else some out
  | .bytes count :: rest =>
    if out.length < cap then
      let piece := stream.take (min (count + 1) (cap - out.length))
      if piece = [] then some out
      else readPipe cap (out ++ piece) (stream.drop piece.length) rest
    else
      -- The buffer is full: the rest is read into `tmp` and dropped.
      let piece := stream.take (min (count + 1) 1024)
      if piece = [] then some out else readPipe cap out (stream.drop piece.length) rest

/-- What becomes of a line that is handed to `/bin/sh`. -/
inductive Child where
  /-- `pipe` or `fork` fails. -/
  | missing (errno : Nat)
  /-- The child writes a text, which is read in pieces. -/
  | runs (stream : CString) (reads : List PipeRead)

/-- `run_external`. -/
def runExternal (child : Child) (cap : Nat) : Option (Int × CString) :=
  match child with
  | .missing errno => some (-errno, [])
  | .runs stream reads => (readPipe cap [] stream reads).map fun out => (0, out)

/-- Is a read of some bytes. -/
def PipeRead.isBytes : PipeRead → Bool
  | .bytes _ => true
  | _ => false

/-- No read fails, and there are more of them than bytes. -/
structure Child.Ends (stream : CString) (reads : List PipeRead) : Prop where
  /-- No read fails. -/
  sound : .failed ∉ reads
  /-- There are enough of them. -/
  enough : stream.length < reads.countP PipeRead.isBytes

/-- What is left behind some bytes is shorter. -/
theorem dropped_shorter {stream : CString} {size : Nat} (filled : stream.take size ≠ []) :
    (stream.drop (stream.take size).length).length < stream.length := by
  have taken := List.length_pos_of_ne_nil filled
  rw [List.length_take] at taken ⊢
  rw [List.length_drop]
  omega

/-- Some bytes and then as many of the others as there is room for. -/
theorem take_behind (stream : CString) {size room : Nat} (fits : size ≤ room) :
    stream.take size ++
        (stream.drop (stream.take size).length).take (room - (stream.take size).length) =
      stream.take room := by
  by_cases short : stream.length ≤ size
  · rw [List.take_of_length_le short, List.drop_length, List.take_nil, List.append_nil,
      List.take_of_length_le (by omega)]
  · rw [List.length_take, Nat.min_eq_left (by omega), ← List.take_add]
    congr 1
    omega

/-- The loop comes to its end when there are more reads than bytes. -/
theorem readPipe_ends (cap : Nat) {reads : List PipeRead} (out stream : CString)
    (enough : stream.length < reads.countP PipeRead.isBytes) :
    readPipe cap out stream reads ≠ none := by
  induction reads generalizing out stream with
  | nil => simp at enough
  | cons first rest ih =>
    cases first with
    | failed => simp [readPipe]
    | interrupted =>
      rw [List.countP_cons_of_neg (by simp [PipeRead.isBytes])] at enough
      rw [readPipe]
      split
      · exact ih out stream enough
      · simp
    | bytes count =>
      rw [List.countP_cons_of_pos rfl] at enough
      rw [readPipe]
      split <;> dsimp only
      · split
        · simp
        · rename_i filled
          have less := dropped_shorter filled
          apply ih
          omega
      · split
        · simp
        · rename_i filled
          have less := dropped_shorter filled
          apply ih
          omega

/-- However the text comes, the buffer gets as much of it as fits. -/
theorem readPipe_takes (cap : Nat) {reads : List PipeRead} (sound : .failed ∉ reads)
    {out stream result : CString} (room : out.length ≤ cap)
    (read : readPipe cap out stream reads = some result) :
    result = out ++ stream.take (cap - out.length) := by
  have full (past : ¬ out.length < cap) : out ++ stream.take (cap - out.length) = out := by
    rw [Nat.sub_eq_zero_of_le (by omega), List.take_zero, List.append_nil]
  induction reads generalizing out stream with
  | nil => cases read
  | cons first rest ih =>
    have later : .failed ∉ rest := fun listed => sound (.tail _ listed)
    have ends {out stream : CString} (room : out.length ≤ cap)
        (read : readPipe cap out stream rest = some result) :
        result = out ++ stream.take (cap - out.length) := by
      apply ih later room read
      intro past
      rw [Nat.sub_eq_zero_of_le (by omega), List.take_zero, List.append_nil]
    cases first with
    | failed => exact absurd (.head _) sound
    | interrupted =>
      rw [readPipe] at read
      split at read
      · exact ends room read
      · rename_i past
        rw [full past]
        exact (Option.some.inj read).symm
    | bytes count =>
      rw [readPipe] at read
      split at read <;> dsimp only at read
      · split at read
        · rename_i free empty
          have ended : stream = [] := by
            apply (List.take_eq_nil_iff.mp empty).resolve_left
            omega
          rw [ended, List.take_nil, List.append_nil]
          exact (Option.some.inj read).symm
        · have whole := ends (by simp only [List.length_append, List.length_take]; omega) read
          rw [whole, List.append_assoc, List.length_append, ← Nat.sub_sub]
          congr 1
          exact take_behind stream (by omega)
      · rename_i past
        split at read
        · rw [full past]
          exact (Option.some.inj read).symm
        · have whole := ends room read
          rw [Nat.sub_eq_zero_of_le (by omega), List.take_zero, List.append_nil] at whole
          rw [full past]
          exact whole

/-! ## Builtins -/

/-- What a line finds outside of the shell. -/
structure Surroundings where
  /-- What `getcwd` gives, or `errno`. -/
  cwd : Except Nat CString
  /-- What becomes of a line that is handed to `/bin/sh`. -/
  child : CString → Child

/-- What an evaluation leaves and returns. -/
structure Answer where
  /-- The state. -/
  state : State
  /-- The return code. -/
  rc : Int
  /-- The bytes that were put into the buffer. -/
  out : CString

/-- What `cmd_help` writes. -/
def helpText : CString :=
  lit "HWRun OS SHELL builtins: help echo pwd history alias exit quit\n" ++
  lit "  help            show this help\n" ++
  lit "  echo <text>     print arguments joined by spaces\n" ++
  lit "  pwd             print current working directory\n" ++
  lit "  history         list command history\n" ++
  lit "  alias           list / set / show aliases\n" ++
  lit "  exit|quit       leave the shell\n" ++
  lit "  other lines run via /bin/sh -c with stdout+stderr captured\n"

/-- The loop of `cmd_echo`, whose first word has no space before it. -/
def echoPieces : List CString → List CString
  | [] => []
  | word :: rest => word :: rest.flatMap fun word => [[32], word]

/-- A row of `cmd_alias`, `"%s='%s'\n"` in a buffer of 512 bytes. -/
def aliasRow (name value : CString) : CString :=
  snprintf 512 (name ++ lit "='" ++ value ++ lit "'\n")

/-- What a builtin leaves and returns, with the pieces that it appends to the buffer. -/
structure Written where
  /-- The state. -/
  state : State
  /-- The return code. -/
  rc : Int
  /-- The pieces. -/
  pieces : List CString

/-- `cmd_pwd`. -/
def cmdPwd (surroundings : Surroundings) (state : State) : Written :=
  match surroundings.cwd with
  | .error errno => ⟨state, -errno, []⟩
  | .ok cwd => ⟨state, 0, [cwd, [newline]]⟩

/-- The rows of `history_list`. -/
def historyPieces (history : History) : List CString :=
  (List.range history.count.val).map fun index =>
    historyRow index ((historyGet history index (some 255)).2.getD [])

/-- `cmd_alias` with the words behind its name. -/
def cmdAlias (state : State) : List CString → Written
  | [] => ⟨state, 0, state.aliases.map fun entry => aliasRow entry.name.val entry.value.val⟩
  | arg :: _ =>
    match cutAt 61 arg with
    | some (name, value) =>
      let (state, rc) := aliasSet state (some name) (some value)
      ⟨state, rc, []⟩
    | none =>
      match aliasGet state.aliases arg with
      | none => ⟨state, enoent, []⟩
      | some value => ⟨state, 0, [aliasRow arg value]⟩

/-- The function of `g_builtins` under a name. -/
def builtin (surroundings : Surroundings) (state : State) (name : CString) (args : List CString) :
    Option Written :=
  if name = lit "help" then some ⟨state, 0, [helpText]⟩
  else if name = lit "echo" then some ⟨state, 0, echoPieces args ++ [[newline]]⟩
  else if name = lit "pwd" then some (cmdPwd surroundings state)
  else if name = lit "history" then some ⟨state, 0, historyPieces state.history⟩
  else if name = lit "alias" then some (cmdAlias state args)
  else if name = lit "exit" ∨ name = lit "quit" then some ⟨state, 0, [lit "bye\n"]⟩
  else none

/-! ## Lines -/

/-- `exec_tokens`; none while the child has not come to its end. -/
def execOut (surroundings : Surroundings) (state : State) (argv : List CString) (cap : Nat) :
    Option Answer :=
  match argv with
  | [] => none
  | name :: args =>
    match builtin surroundings state name args with
    | some written => some ⟨written.state, written.rc, written.pieces.foldl (bufAppend cap) []⟩
    | none =>
      (runExternal (surroundings.child (joinLine lineSize argv)) cap).map fun result =>
        ⟨state, result.1, result.2⟩

/-- `ops_eval` of a line with a buffer of a size. -/
def evalOut (surroundings : Surroundings) (state : State) (line : CString) (cap : Nat) :
    Option Answer :=
  let attempt := opsEval state (some line) true
  match attempt.result with
  | .error rc => some ⟨attempt.state, rc, []⟩
  | .ok argv => execOut surroundings attempt.state argv cap

/-- Every child that is read comes to its end. -/
def Surroundings.Ending (surroundings : Surroundings) : Prop :=
  ∀ line stream reads, surroundings.child line = .runs stream reads → Child.Ends stream reads

/-- The words that `ops_eval` executes are not none. -/
theorem opsEval_filled {state : State} {line : CString} {argv : List CString}
    (given : (opsEval state (some line) true).result = .ok argv) : argv ≠ [] := by
  unfold opsEval at given
  dsimp only at given
  rw [if_neg (by simp)] at given
  split at given
  · cases given
  · split at given
    · cases given
    · rename_i name args words
      split at given
      · rename_i value expands
        rw [← Except.ok.inj given]
        split
        · rw [words]
          simp
        · assumption
      · rw [← Except.ok.inj given, words]
        simp

/-- The whole text that the words of a line stand for, with the state and the return code. -/
def execText (surroundings : Surroundings) (state : State) : List CString → Answer
  | [] => ⟨state, einval, []⟩
  | name :: args =>
    match builtin surroundings state name args with
    | some written => ⟨written.state, written.rc, written.pieces.flatten⟩
    | none =>
      match surroundings.child (joinLine lineSize (name :: args)) with
      | .missing errno => ⟨state, -errno, []⟩
      | .runs stream _ => ⟨state, 0, stream⟩

/-- The whole text that a line stands for. -/
def evalText (surroundings : Surroundings) (state : State) (line : CString) : Answer :=
  let attempt := opsEval state (some line) true
  match attempt.result with
  | .error rc => ⟨attempt.state, rc, []⟩
  | .ok argv => execText surroundings attempt.state argv

/-- As much of an answer as fits into a buffer. -/
def Answer.cut (answer : Answer) (cap : Nat) : Answer := { answer with out := answer.out.take cap }

/-- A child that writes its line back, in pieces of two bytes with an interruption. -/
def echoing : Surroundings where
  cwd := .ok (lit "/root")
  child line := .runs line (.interrupted :: List.replicate (line.length + 1) (.bytes 1))

end HwrunOs.Shell
