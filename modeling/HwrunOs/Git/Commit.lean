import HwrunOs.Library.Shell
import HwrunOs.Param.Tree
import HwrunOs.Git.Executor

/-!
# The message of a commit

`git_ops_commit` of `git/src/storage.c` puts the message between double quotes of a shell
command, with its quotes and backslashes escaped. The bus hands it the keys of changed
parameters: `bus_on_param_revision`.
-/

namespace HwrunOs.Git

open HwrunOs.Bytes HwrunOs.Param HwrunOs.Shells

/-- The loop that copies a message into `char msg[512]`, of which `used` bytes are filled: the
bytes it adds, and the rest of the message that it does not read. -/
def copyMessage (used : Nat) : CString → CString × CString
  | [] => ([], [])
  | byte :: rest =>
    if used < 510 then
      let escaped := if byte == 34 || byte == 92 then [92, byte] else [byte]
      let (added, unread) := copyMessage (used + escaped.length) rest
      (escaped ++ added, unread)
    else ([], byte :: rest)

/-- A message fits its buffer when the loop reads it to the end. -/
def MessageFits (message : CString) : Prop := (copyMessage 0 message).2 = []

instance (message : CString) : Decidable (MessageFits message) :=
  inferInstanceAs (Decidable ((copyMessage 0 message).2 = []))

/-- The arguments of git: `char cmd[1200]`. -/
def commitCommand (message : CString) : CString :=
  snprintf 1200 (lit "commit -m \"" ++ (copyMessage 0 message).1 ++ lit "\"")

/-- The id of the new commit, for a caller with a buffer of that size. -/
def commitId (context : GitContext) (host : Host) (world : World) (outCap : Nat) :
    World × Option CString :=
  if outCap = 0 then (world, none)
  else
    let (world, result) := gitExec context host world none (some (lit "rev-parse HEAD"))
    let output := (result.filter GitResult.success).bind GitResult.stdout
    (world, output.map fun text => snprintf outCap (text.takeWhile (· != newline)))

/-- `git_ops_commit`: the state after it, its return code and the id. -/
def gitOpsCommit (context : GitContext) (host later : Host) (world : World)
    (message : Option CString) (outCap : Nat) : World × Int × Option CString :=
  match message with
  | none => (world, hwrunEinval, none)
  | some text =>
    let (world, result) := gitExecAudit context host later world none
      (some (commitCommand text)) (some (lit "system")) (some (lit "commit")) message
    match result with
    | none => (world, -1, none)
    | some result =>
      if result.success then
        let (world, id) := commitId context later world outCap
        (world, 0, id)
      else (world, -1, none)

/-- The message of `bus_on_param_revision`: `char msg[192]`. -/
def revisionMessage (reason : Option CString) : CString :=
  snprintf 192 (lit "param: " ++
    if reason.getD [] = [] then lit "tree changed" else reason.getD [])

/-! ## The command -/

/-- A message that fits is copied whole, escaped. -/
theorem copyMessage_fits {used : Nat} {message : CString}
    (fits : (copyMessage used message).2 = []) :
    (copyMessage used message).1 = escapeQuoted message ∧
      (message ≠ [] → used + (escapeQuoted message).length ≤ 511) := by
  induction message generalizing used with
  | nil => exact ⟨rfl, fun filled => absurd rfl filled⟩
  | cons byte rest ih =>
    by_cases room : used < 510
    · simp only [copyMessage, if_pos room] at fits ⊢
      have whole : escapeQuoted (byte :: rest) =
          (if byte == 34 || byte == 92 then [92, byte] else [byte]) ++ escapeQuoted rest := rfl
      obtain ⟨copied, bound⟩ := ih fits
      refine ⟨by rw [copied, whole], fun _ => ?_⟩
      have short : (if byte == 34 || byte == 92 then [92, byte] else [byte]).length ≤ 2 := by
        split <;> simp
      rw [whole, List.length_append]
      by_cases last : rest = []
      · have none : (escapeQuoted rest).length = 0 := by rw [last]; rfl
        omega
      · have bounded := bound last
        omega
    · simp [copyMessage, room] at fits

/-- Two bytes for each of the message are enough room. -/
theorem copyMessage_room {used : Nat} {message : CString} (room : used + 2 * message.length < 512) :
    (copyMessage used message).2 = [] := by
  induction message generalizing used with
  | nil => rfl
  | cons byte rest ih =>
    have short : (if byte == 34 || byte == 92 then [92, byte] else [byte]).length ≤ 2 := by
      split <;> simp
    have left : used + 2 * (rest.length + 1) < 512 := room
    simp only [copyMessage, if_pos (show used < 510 by omega)]
    exact ih (by omega)

/-- The message of a changed parameter fits. -/
theorem revisionMessage_fits (reason : Option CString) : MessageFits (revisionMessage reason) := by
  have short : (revisionMessage reason).length < 192 := snprintf_length _ (by omega)
  exact copyMessage_room (by omega)

/-- The command of a message that fits. -/
theorem commit_command {work message : CString} (path : work.length < 256)
    (fits : MessageFits message) :
    fullCommand work (commitCommand message) =
      lit "cd \"" ++ work ++ lit "\" 2>/dev/null && git commit -m \"" ++
        escapeQuoted message ++ lit "\" 2>&1" := by
  obtain ⟨copied, bound⟩ := copyMessage_fits fits
  have short : (escapeQuoted message).length ≤ 511 := by
    by_cases empty : message = []
    · rw [empty]; decide
    · have bounded := bound empty
      omega
  have front : (lit "cd \"").length = 4 := by decide
  have middle : (lit "\" 2>/dev/null && git ").length = 21 := by decide
  have commit : (lit "commit -m \"").length = 11 := by decide
  have joined : lit "\" 2>/dev/null && git commit -m \"" =
      lit "\" 2>/dev/null && git " ++ lit "commit -m \"" := by decide
  have quote : (lit "\"").length = 1 := by decide
  have tail : (lit " 2>&1").length = 5 := by decide
  have ended : lit "\" 2>&1" = lit "\"" ++ lit " 2>&1" := by decide
  have command : commitCommand message =
      lit "commit -m \"" ++ escapeQuoted message ++ lit "\"" := by
    rw [commitCommand, copied]
    exact snprintf_eq (by simp only [List.length_append]; omega)
  rw [fullCommand, command, snprintf_eq (by simp only [List.length_append]; omega), joined, ended]
  simp only [List.append_assoc]

/-- A commit hands the shell its command and, when it succeeds for a caller with a buffer, the
command that asks for the id. -/
theorem gitOpsCommit_commands (context : GitContext) {host later : Host}
    (dir : host.auditDir = true) (still : later.auditDir = true) (world : World)
    (message : CString) (outCap : Nat) :
    ∃ more, (gitOpsCommit context host later world (some message) outCap).1.commands =
      world.commands ++ [fullCommand context.repoPath.1 (commitCommand message)] ++ more ∧
        (more = [] ∨ more = [fullCommand context.repoPath.1 (lit "rev-parse HEAD")]) := by
  have audited : (gitExecAudit context host later world none (some (commitCommand message))
      (some (lit "system")) (some (lit "commit")) (some message)).1.commands =
      world.commands ++ [fullCommand context.repoPath.1 (commitCommand message)] := by
    simp [gitExecAudit, gitAuditWrite, gitExec, dir, still]
  have executed : ∃ result, (gitExecAudit context host later world none
      (some (commitCommand message)) (some (lit "system")) (some (lit "commit"))
      (some message)).2 = some result := ⟨_, rfl⟩
  obtain ⟨result, executed⟩ := executed
  simp only [gitOpsCommit, executed]
  split
  next =>
    by_cases silent : outCap = 0
    · refine ⟨[], ?_, .inl rfl⟩
      simp only [commitId, if_pos silent, audited, List.append_nil]
    · refine ⟨[fullCommand context.repoPath.1 (lit "rev-parse HEAD")], ?_, .inr rfl⟩
      simp only [commitId, if_neg silent, gitExec, audited, Option.getD_none]
  next => exact ⟨[], by simp only [audited, List.append_nil], .inl rfl⟩

/-! ## What the shell reads -/

/-- A path that stands for itself between double quotes. -/
def PlainPath (work : CString) : Prop :=
  standsForItself work = true ∧ escapeQuoted work = work

instance (work : CString) : Decidable (PlainPath work) :=
  inferInstanceAs (Decidable (_ ∧ _))

/-- The tokens before the message: the change of directory, and git with `commit -m`. -/
def frontTokens (work : CString) : List Token :=
  [.word (lit "cd"), .word work, .ioNumber (lit "2"), .operator (lit ">"),
    .word (lit "/dev/null"), .operator (lit "&&"), .word (lit "git"), .word (lit "commit"),
    .word (lit "-m")]

/-- The tokens of a command that passes git the message as the one argument of `-m`. -/
def commitTokens (work message : CString) : List Token :=
  frontTokens work ++ [.word message, .ioNumber (lit "2"), .operator (lit ">&"), .word (lit "1")]

/-- The shell passes git the message as the one argument of `-m`, and runs no other command. -/
def PassesMessage (shell : Shell) (context : GitContext) (message : CString) : Prop :=
  shell.tokens (fullCommand context.repoPath.1 (commitCommand message)) =
    some (commitTokens context.repoPath.1 message, [])

instance (shell : Shell) (context : GitContext) (message : CString) :
    Decidable (PassesMessage shell context message) := inferInstanceAs (Decidable (_ = _))

open Reading in
/-- The command is read up to the message. -/
theorem read_front (shell : Shell) {work : CString} (plain : PlainPath work) (rest : CString) :
    shell.tokens (lit "cd \"" ++ work ++ lit "\" 2>/dev/null && git commit -m \"" ++ rest) =
      shell.read (quoted (frontTokens work) [] []) rest := by
  have cd (rest : CString) : shell.tokens (lit "cd \"" ++ rest) =
      shell.read (quoted [.word (lit "cd")] [] []) rest := rfl
  -- The fixed words are read in three parts, each from one blank to the next.
  have redirect (rest : CString) : shell.read (quoted [.word (lit "cd")] work [])
      (34 :: (lit " 2>/dev/null " ++ rest)) =
      shell.read ⟨.bare, .none, (frontTokens work).take 5, []⟩ rest := rfl
  have program (rest : CString) : shell.read ⟨.bare, .none, (frontTokens work).take 5, []⟩
      (lit "&& git " ++ rest) =
      shell.read ⟨.bare, .none, (frontTokens work).take 7, []⟩ rest := rfl
  have option (rest : CString) : shell.read ⟨.bare, .none, (frontTokens work).take 7, []⟩
      (lit "commit -m \"" ++ rest) =
      shell.read (quoted (frontTokens work) [] []) rest := rfl
  have joined : lit "\" 2>/dev/null && git commit -m \"" =
      34 :: (lit " 2>/dev/null " ++ (lit "&& git " ++ lit "commit -m \"")) := by decide
  have path := read_text shell [.word (lit "cd")] [] work plain.1 []
    (lit " 2>/dev/null " ++ (lit "&& git " ++ (lit "commit -m \"" ++ rest)))
  rw [plain.2, List.nil_append, redirect, program, option] at path
  rw [joined, List.append_assoc, List.append_assoc, List.cons_append, List.append_assoc,
    List.append_assoc, cd, path]

open Reading in
/-- The command is read to its end after the message. -/
theorem read_end (shell : Shell) (work message : CString) :
    shell.read (quoted (frontTokens work) message []) (lit "\" 2>&1") =
      some (commitTokens work message, []) := rfl

/-- The fixed words before the message hold no dollar sign and no backquote. -/
theorem frontTokens_marks (work : CString) : tokenMarks (frontTokens work) = marks work := by
  have cd : marks (lit "cd") = 0 := by decide
  have rest : tokenMarks [.ioNumber (lit "2"), .operator (lit ">"), .word (lit "/dev/null"),
      .operator (lit "&&"), .word (lit "git"), .word (lit "commit"), .word (lit "-m")] = 0 := by
    decide
  show marks (lit "cd") + (marks work + tokenMarks [.ioNumber (lit "2"), .operator (lit ">"),
    .word (lit "/dev/null"), .operator (lit "&&"), .word (lit "git"), .word (lit "commit"),
    .word (lit "-m")]) = _
  rw [cd, rest]
  omega

/-- The tokens have the marks of the path and of the message. -/
theorem commitTokens_marks (work message : CString) :
    tokenMarks (commitTokens work message) = marks work + marks message := by
  have tail : tokenMarks [.ioNumber (lit "2"), .operator (lit ">&"), .word (lit "1")] = 0 := by
    decide
  rw [commitTokens, tokenMarks_append, frontTokens_marks]
  show marks work + (marks message + tokenMarks [.ioNumber (lit "2"), .operator (lit ">&"),
    .word (lit "1")]) = _
  rw [tail]
  omega

/-- A message that fits is passed as it is exactly when no part of it is an expansion. -/
theorem passes_iff {shell : Shell} (takes : shell.TakesAway) {context : GitContext}
    (plain : PlainPath context.repoPath.1) {message : CString} (fits : MessageFits message) :
    PassesMessage shell context message ↔ standsForItself message = true := by
  have command := commit_command context.repoPath.2 fits
  have quote : lit "\" 2>&1" = 34 :: lit " 2>&1" := by decide
  have tail : marks (lit " 2>&1") = 0 := by decide
  rw [PassesMessage, command, List.append_assoc, read_front shell plain]
  constructor
  · intro passes
    by_contra special
    rw [quote] at passes
    have fewer := read_expansion takes (by simpa using special) _ [] _ passes
    have empty : marks [] = 0 := rfl
    rw [commitTokens_marks, frontTokens_marks, tail, empty] at fewer
    omega
  · intro itself
    rw [quote, read_text shell _ [] message itself [], ← quote]
    exact read_end shell _ message

/-- A message that fits its buffer is passed to git as the one argument of `-m`, and nothing
else is run, exactly when no backquote is in it and no dollar sign that starts an expansion. So
it is with the message of every changed parameter. -/
theorem commit_passes_iff (shell : Shell) (takes : shell.TakesAway) (context : GitContext)
    (plain : PlainPath context.repoPath.1) :
    (∀ message, MessageFits message →
      (PassesMessage shell context message ↔ standsForItself message = true)) ∧
      ∀ reason, PassesMessage shell context (revisionMessage reason) ↔
        standsForItself (revisionMessage reason) = true :=
  ⟨fun _ fits => passes_iff takes plain fits,
    fun reason => passes_iff takes plain (revisionMessage_fits reason)⟩

/-- A shell with no parameters, in which a command substitution runs its command and puts what
the command prints in its place. -/
def commandShell (prints : CString → CString) : Shell where
  expand text :=
    match text with
    | 36 :: 40 :: rest => (cutAt 41 rest).map fun (command, _) =>
        ⟨prints command, command.length + 2, [command]⟩
    | _ => none

/-- That shell runs a command for every expansion it makes. -/
theorem commandShell_takes (prints : CString → CString) : (commandShell prints).TakesAway := by
  intro text expansion expanded silent
  unfold commandShell at expanded
  dsimp only at expanded
  split at expanded
  next rest =>
    obtain ⟨⟨command, after⟩, cut, rfl⟩ := Option.map_eq_some_iff.mp expanded
    cases silent
  next => cases expanded

/-- The configuration of the git plugin without a configuration file. -/
def defaultContext : GitContext :=
  ⟨Field.copy (lit "/var/lib/hwrun/git"), Field.copy (lit "/var/lib/hwrun/git-audit")⟩

/-- Messages of changed parameters, with and without bytes that are special to the shell. -/
theorem commit_passes_default :
    PlainPath defaultContext.repoPath.1 ∧
      (PassesMessage (commandShell fun _ => []) defaultContext
          (revisionMessage (some (lit "net.\"eth0\".price$"))) ∧
        ¬ PassesMessage (commandShell fun _ => []) defaultContext
          (revisionMessage (some (lit "net.`reboot`")))) := by
  have plain : PlainPath defaultContext.repoPath.1 := by decide
  have iff := (commit_passes_iff _ (commandShell_takes fun _ => []) defaultContext plain).2
  refine ⟨plain, (iff _).mpr (by decide +kernel), ?_⟩
  rw [iff]
  decide

/-- A parameter key with a command in it: the command is run, and git gets another message. -/
theorem key_runs_command :
    MessageFits (revisionMessage (some (lit "$(reboot)"))) ∧
      ¬ PassesMessage (commandShell fun _ => []) defaultContext
        (revisionMessage (some (lit "$(reboot)"))) ∧
      (commandShell fun _ => []).tokens (fullCommand defaultContext.repoPath.1
          (commitCommand (revisionMessage (some (lit "$(reboot)"))))) =
        some (commitTokens defaultContext.repoPath.1 (lit "param: "), [lit "reboot"]) := by
  have ran : (commandShell fun _ => []).tokens (fullCommand defaultContext.repoPath.1
      (commitCommand (revisionMessage (some (lit "$(reboot)"))))) =
      some (commitTokens defaultContext.repoPath.1 (lit "param: "), [lit "reboot"]) := by
    decide +kernel
  refine ⟨by decide +kernel, ?_, ran⟩
  unfold PassesMessage
  rw [ran]
  decide

end HwrunOs.Git
