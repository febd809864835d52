import HwrunOs.Library.QuotedWords
import HwrunOs.Library.Runs
import HwrunOs.Git.Commit

/-!
# The operations on a repository

The operations of `storage.c`, `version.c`, `branch.c` and `history.c` write a command for git into
a buffer, with their arguments as they come: most of them bare, the last one of a merge and of a
clone between double quotes. Whether git gets them as its arguments is decided by the shell.
-/

namespace HwrunOs.Git

open HwrunOs.Bytes HwrunOs.Runs HwrunOs.Shells HwrunOs.Param HwrunOs.SimpleCommands

/-! ## Commands -/

/-- An argument that is there and is not empty. -/
def given (text : Option CString) : Option CString := text.filter (· ≠ [])

/-- A command for git: its name, its bare arguments, and one between double quotes, in a buffer. -/
structure GitCommand where
  /-- The size of the buffer. -/
  cap : Nat
  /-- The name of the command. -/
  name : CString
  /-- The arguments that are not quoted. -/
  args : List CString
  /-- The argument between double quotes. -/
  quoted : Option CString

/-- The text that is printed into the buffer. -/
def GitCommand.text (command : GitCommand) : CString :=
  command.name ++ spaced command.args ++ (command.quoted.map quotedTail).getD []

/-- What the buffer holds of it. -/
def GitCommand.buffer (command : GitCommand) : CString := snprintf command.cap command.text

/-- The words that git should get. -/
def GitCommand.words (command : GitCommand) : List CString :=
  command.name :: (command.args ++ command.quoted.toList)

/-- `clone %s "%s"`. -/
def cloneCommand (remote localPath : CString) : GitCommand :=
  ⟨1024, lit "clone", [remote], some localPath⟩

/-- `add -- %s`. -/
def addCommand (path : CString) : GitCommand := ⟨1024, lit "add", [lit "--", path], none⟩

/-- `push`, `push %s` or `push %s %s` as a whole; the same with `pull`. -/
def remoteCommand (name : CString) (remote branch : Option CString) : GitCommand :=
  match given remote with
  | none => ⟨512, name, [], none⟩
  | some remote => ⟨512, name, remote :: (given branch).toList, none⟩

/-- The buffer of a push or a pull, to which the branch is printed behind the remote. -/
def remoteBuffer (name : CString) (remote branch : Option CString) : CString :=
  match given remote with
  | none => name
  | some remote =>
    let cmd := snprintf 512 (name ++ 32 :: remote)
    match given branch with
    | none => cmd
    | some branch => cmd ++ snprintf (512 - cmd.length) (32 :: branch)

/-- `tag %s %s` or `tag %s`. -/
def tagCommand (name : CString) (commit : Option CString) : GitCommand :=
  ⟨512, lit "tag", name :: (given commit).toList, none⟩

/-- `checkout %s`. -/
def checkoutCommand (ref : CString) : GitCommand := ⟨512, lit "checkout", [ref], none⟩

/-- `reset %s %s`. -/
def resetCommand (ref : CString) (hard : Int) : GitCommand :=
  ⟨512, lit "reset", [if hard ≠ 0 then lit "--hard" else lit "--soft", ref], none⟩

/-- `revert %s --no-edit`. -/
def revertCommand (commit : CString) : GitCommand :=
  ⟨512, lit "revert", [commit, lit "--no-edit"], none⟩

/-- `branch %s %s` or `branch %s`. -/
def branchCommand (name : CString) (base : Option CString) : GitCommand :=
  ⟨512, lit "branch", name :: (given base).toList, none⟩

/-- `merge %s -m "%s"` or `merge %s --no-edit`. -/
def mergeCommand (branch : CString) (message : Option CString) : GitCommand :=
  match given message with
  | some message => ⟨512, lit "merge", [branch, lit "-m"], some message⟩
  | none => ⟨512, lit "merge", [branch, lit "--no-edit"], none⟩

/-- `diff %s %s`, `diff %s` or `diff`. -/
def diffCommand (first second : Option CString) : GitCommand :=
  match given first, given second with
  | some first, some second => ⟨640, lit "diff", [first, second], none⟩
  | some first, none => ⟨640, lit "diff", [first], none⟩
  | none, _ => ⟨640, lit "diff", [], none⟩

/-! ## Operations -/

/-- What the operations that change a repository make of a command: the state after it, and the
return code. -/
def runAudited (context : GitContext) (host later : Host) (world : World) (cmd operation : CString)
    (target : Option CString) : World × Int :=
  let (world, result) := gitExecAudit context host later world none (some cmd)
    (some (lit "system")) (some operation) target
  match result with
  | none => (world, -1)
  | some result => (world, if result.success then 0 else -1)

section Operations

variable (context : GitContext) (host later : Host) (world : World)

/-- An operation without an argument that it needs. -/
def refused : World × Int := (world, hwrunEinval)

/-- `git_ops_clone`. -/
def gitOpsClone (remote localPath : Option CString) : World × Int :=
  match remote, localPath with
  | some remote, some localPath =>
    runAudited context host later world (cloneCommand remote localPath).buffer
      (lit "clone") (some remote)
  | _, _ => refused world

/-- `git_ops_add`. -/
def gitOpsAdd (path : Option CString) : World × Int :=
  match path with
  | some path =>
    runAudited context host later world (addCommand path).buffer (lit "add") (some path)
  | none => refused world

/-- `git_ops_push`, with the remote of the configuration, which the audit log names. -/
def gitOpsPush (remoteUrl : CString) (remote branch : Option CString) : World × Int :=
  runAudited context host later world (remoteBuffer (lit "push") remote branch) (lit "push")
    (some (remote.getD remoteUrl))

/-- `git_ops_pull`, likewise. -/
def gitOpsPull (remoteUrl : CString) (remote branch : Option CString) : World × Int :=
  runAudited context host later world (remoteBuffer (lit "pull") remote branch) (lit "pull")
    (some (remote.getD remoteUrl))

/-- `git_ops_tag`. -/
def gitOpsTag (name commit : Option CString) : World × Int :=
  match name with
  | some name =>
    runAudited context host later world (tagCommand name commit).buffer (lit "tag") (some name)
  | none => refused world

/-- `git_ops_checkout`. -/
def gitOpsCheckout (ref : Option CString) : World × Int :=
  match ref with
  | some ref =>
    runAudited context host later world (checkoutCommand ref).buffer (lit "checkout") (some ref)
  | none => refused world

/-- `git_ops_reset`. -/
def gitOpsReset (ref : Option CString) (hard : Int) : World × Int :=
  match ref with
  | some ref =>
    runAudited context host later world (resetCommand ref hard).buffer (lit "reset") (some ref)
  | none => refused world

/-- `git_ops_revert`. -/
def gitOpsRevert (commit : Option CString) : World × Int :=
  match commit with
  | some commit =>
    runAudited context host later world (revertCommand commit).buffer (lit "revert") (some commit)
  | none => refused world

/-- `git_ops_branch`. -/
def gitOpsBranch (name base : Option CString) : World × Int :=
  match name with
  | some name =>
    runAudited context host later world (branchCommand name base).buffer (lit "branch") (some name)
  | none => refused world

/-- `git_ops_merge`. -/
def gitOpsMerge (branch message : Option CString) : World × Int :=
  match branch with
  | some branch =>
    runAudited context host later world (mergeCommand branch message).buffer (lit "merge")
      (some branch)
  | none => refused world

/-- `git_ops_diff`: the output of git, which is not audited. -/
def gitOpsDiff (first second : Option CString) : World × Option CString :=
  let (world, result) := gitExec context host world none (some (diffCommand first second).buffer)
  (world, (result.filter GitResult.success).bind GitResult.stdout)

end Operations

/-- An operation with its arguments. -/
inductive Operation where
  /-- `git_ops_clone`. -/
  | clone (remote localPath : Option CString)
  /-- `git_ops_add`. -/
  | add (path : Option CString)
  /-- `git_ops_push`. -/
  | push (remote branch : Option CString)
  /-- `git_ops_pull`. -/
  | pull (remote branch : Option CString)
  /-- `git_ops_tag`. -/
  | tag (name commit : Option CString)
  /-- `git_ops_checkout`. -/
  | checkout (ref : Option CString)
  /-- `git_ops_reset`. -/
  | reset (ref : Option CString) (hard : Int)
  /-- `git_ops_revert`. -/
  | revert (commit : Option CString)
  /-- `git_ops_branch`. -/
  | branch (name base : Option CString)
  /-- `git_ops_merge`. -/
  | merge (branch message : Option CString)
  /-- `git_ops_diff`. -/
  | diff (first second : Option CString)

/-- The command of an operation that has the arguments it needs. -/
def Operation.command : Operation → Option GitCommand
  | .clone remote localPath => do return cloneCommand (← remote) (← localPath)
  | .add path => path.map addCommand
  | .push remote ref => some (remoteCommand (lit "push") remote ref)
  | .pull remote ref => some (remoteCommand (lit "pull") remote ref)
  | .tag name commit => name.map (tagCommand · commit)
  | .checkout ref => ref.map checkoutCommand
  | .reset ref hard => ref.map (resetCommand · hard)
  | .revert commit => commit.map revertCommand
  | .branch name base => name.map (branchCommand · base)
  | .merge ref message => ref.map (mergeCommand · message)
  | .diff first second => some (diffCommand first second)

/-- The state after an operation. -/
def Operation.perform (context : GitContext) (remoteUrl : CString) (host later : Host)
    (world : World) : Operation → World
  | .clone remote localPath => (gitOpsClone context host later world remote localPath).1
  | .add path => (gitOpsAdd context host later world path).1
  | .push remote ref => (gitOpsPush context host later world remoteUrl remote ref).1
  | .pull remote ref => (gitOpsPull context host later world remoteUrl remote ref).1
  | .tag name commit => (gitOpsTag context host later world name commit).1
  | .checkout ref => (gitOpsCheckout context host later world ref).1
  | .reset ref hard => (gitOpsReset context host later world ref hard).1
  | .revert commit => (gitOpsRevert context host later world commit).1
  | .branch name base => (gitOpsBranch context host later world name base).1
  | .merge ref message => (gitOpsMerge context host later world ref message).1
  | .diff first second => (gitOpsDiff context host world first second).1

/-! ## What git gets -/

/-- The words of the command for git, as the shell makes them. -/
def GitCommand.GetsWords (command : GitCommand) : Prop :=
  commandWords (lit "git " ++ command.buffer) = some (lit "git" :: command.words)

/-- The arguments mean themselves where they stand, and the buffer holds them all. -/
structure GitCommand.Sound (command : GitCommand) : Prop where
  /-- Nothing in a bare argument has a meaning of its own. -/
  bare : ∀ word ∈ command.args, StandsAlone word = true
  /-- Nothing in the quoted one has. -/
  quoted : ∀ word ∈ command.quoted, standsQuoted word = true
  /-- The text fits. -/
  fits : command.text.length < command.cap

/-- The name of a command is a word, and its buffer has one of the sizes there are. -/
structure GitCommand.Proper (command : GitCommand) : Prop where
  /-- The name stands alone. -/
  name : StandsAlone command.name = true
  /-- There is a buffer. -/
  room : 0 < command.cap
  /-- It is not large. -/
  small : command.cap ≤ 1024

/-- The text behind `git` has the words of the command behind spaces. -/
theorem git_text (command : GitCommand) :
    lit "git " ++ command.text = lit "git" ++ spaced (command.name :: command.args) ++
      (command.quoted.map quotedTail).getD [] := by
  have git : lit "git " = lit "git" ++ [32] := by decide
  rw [GitCommand.text, git, spaced_cons]
  simp

/-- Git gets the arguments of a command exactly when they mean themselves and fit. -/
theorem GitCommand.Proper.getsWords_iff {command : GitCommand} (proper : command.Proper) :
    command.GetsWords ↔ command.Sound := by
  obtain ⟨named, room, -⟩ := proper
  have alone : StandsAlone (lit "git") = true := by decide
  have names : namesCommand (lit "git") = true := by decide
  unfold GitCommand.GetsWords
  by_cases fits : command.text.length < command.cap
  · have sound : command.Sound ↔ (∀ word ∈ command.args, StandsAlone word = true) ∧
        ∀ word ∈ command.quoted, standsQuoted word = true :=
      ⟨fun sound => ⟨sound.bare, sound.quoted⟩, fun both => ⟨both.1, both.2, fits⟩⟩
    rw [sound, GitCommand.buffer, snprintf_eq fits, git_text, GitCommand.words]
    cases command.quoted with
    | none =>
      have iff := commandWords_spaced_iff (lit "git") (command.name :: command.args)
      simpa [alone, names, named] using iff
    | some text =>
      have iff := commandWords_quoted_iff alone names (command.name :: command.args) text
      simpa [named] using iff
  · have unsound : ¬ command.Sound := fun sound => fits sound.fits
    refine iff_of_false ?_ unsound
    have held : command.buffer.length < command.text.length := by
      rw [GitCommand.buffer, snprintf, List.length_take]
      omega
    have begins : lit "git " ++ command.buffer <+: lit "git " ++ command.text :=
      List.prefix_append_right_inj _ |>.mpr (snprintf_begins _ _)
    have shorter : (lit "git " ++ command.buffer).length < (lit "git " ++ command.text).length := by
      simp only [List.length_append]
      omega
    rw [git_text] at begins shorter
    cases quoted : command.quoted with
    | none =>
      intro read
      have bound := commandWords_length read
      rw [quoted] at shorter
      simp [GitCommand.words, quoted, spaced] at bound shorter
      omega
    | some text =>
      rw [quoted] at begins shorter
      have cut := commandWords_cut begins shorter
      rw [GitCommand.words, quoted]
      exact cut

/-- A branch that is printed behind the remote is printed with it. -/
theorem remoteBuffer_eq {name : CString} (short : name.length < 512)
    (remote branch : Option CString) :
    remoteBuffer name remote branch = (remoteCommand name remote branch).buffer := by
  unfold remoteBuffer remoteCommand
  cases given remote with
  | none =>
    have whole := snprintf_eq short
    simp [GitCommand.buffer, GitCommand.text, spaced, whole]
  | some remote =>
    cases given branch with
    | none => simp [GitCommand.buffer, GitCommand.text, spaced]
    | some branch =>
      have whole : (GitCommand.mk 512 name [remote, branch] none).text =
          (name ++ 32 :: remote) ++ 32 :: branch := by simp [GitCommand.text, spaced]
      have room : 512 - (snprintf 512 (name ++ 32 :: remote)).length - 1 =
          511 - (name ++ 32 :: remote).length := by
        rw [snprintf, List.length_take]
        omega
      have behind : snprintf (512 - (snprintf 512 (name ++ 32 :: remote)).length) (32 :: branch) =
          (32 :: branch).take (511 - (name ++ 32 :: remote).length) := by rw [snprintf, room]
      dsimp only
      rw [behind]
      show _ = snprintf 512 _
      rw [Option.toList_some, whole]
      exact List.take_append.symm

/-- The names of the commands. -/
def commandNames : List CString :=
  ["clone", "add", "push", "pull", "tag", "checkout", "reset", "revert", "branch", "merge",
    "diff"].map lit

/-- A command with one of the names in one of the buffers is proper. -/
theorem proper_of {command : GitCommand} (name : command.name ∈ commandNames)
    (cap : command.cap ∈ [512, 640, 1024]) : command.Proper := by
  have alone : ∀ name ∈ commandNames, StandsAlone name = true := by decide
  have sizes : ∀ cap ∈ [512, 640, 1024], 0 < cap ∧ cap ≤ 1024 := by decide
  exact ⟨alone _ name, (sizes _ cap).1, (sizes _ cap).2⟩

/-- Every command of an operation is proper. -/
theorem Operation.command_proper {operation : Operation} {command : GitCommand}
    (has : operation.command = some command) : command.Proper := by
  have remotes (name : CString) (known : name ∈ commandNames) (remote ref : Option CString) :
      (remoteCommand name remote ref).Proper := by
    unfold remoteCommand
    split
    · exact proper_of known (by simp)
    · exact proper_of known (by simp)
  cases operation with
  | clone remote localPath =>
    cases remote with
    | none => cases has
    | some remote =>
      cases localPath with
      | none => cases has
      | some localPath =>
        cases has
        exact proper_of (by simp [commandNames, cloneCommand]) (by simp [cloneCommand])
  | add path =>
    obtain ⟨path, -, rfl⟩ := Option.map_eq_some_iff.mp has
    exact proper_of (by simp [commandNames, addCommand]) (by simp [addCommand])
  | push remote ref =>
    cases has
    exact remotes _ (by simp [commandNames]) remote ref
  | pull remote ref =>
    cases has
    exact remotes _ (by simp [commandNames]) remote ref
  | tag name commit =>
    obtain ⟨name, -, rfl⟩ := Option.map_eq_some_iff.mp has
    exact proper_of (by simp [commandNames, tagCommand]) (by simp [tagCommand])
  | checkout ref =>
    obtain ⟨ref, -, rfl⟩ := Option.map_eq_some_iff.mp has
    exact proper_of (by simp [commandNames, checkoutCommand]) (by simp [checkoutCommand])
  | reset ref hard =>
    obtain ⟨ref, -, rfl⟩ := Option.map_eq_some_iff.mp has
    exact proper_of (by simp [commandNames, resetCommand]) (by simp [resetCommand])
  | revert commit =>
    obtain ⟨commit, -, rfl⟩ := Option.map_eq_some_iff.mp has
    exact proper_of (by simp [commandNames, revertCommand]) (by simp [revertCommand])
  | branch name base =>
    obtain ⟨name, -, rfl⟩ := Option.map_eq_some_iff.mp has
    exact proper_of (by simp [commandNames, branchCommand]) (by simp [branchCommand])
  | merge ref message =>
    obtain ⟨ref, -, rfl⟩ := Option.map_eq_some_iff.mp has
    unfold mergeCommand
    split
    · exact proper_of (by simp [commandNames]) (by simp)
    · exact proper_of (by simp [commandNames]) (by simp)
  | diff first second =>
    cases has
    unfold diffCommand
    split
    · exact proper_of (by simp [commandNames]) (by simp)
    · exact proper_of (by simp [commandNames]) (by simp)
    · exact proper_of (by simp [commandNames]) (by simp)

/-! ## Runs -/

/-- An operation, and what the system answers before and after its command. -/
structure GitCall where
  /-- The operation. -/
  operation : Operation
  /-- The answers to the first half. -/
  host : Host
  /-- The answers to the second half. -/
  later : Host

/-- One operation. -/
def gitStep (context : GitContext) (remoteUrl : CString) (world : World) (call : GitCall) : World :=
  call.operation.perform context remoteUrl call.host call.later world

/-- The command that makes the directory of the audit log, when it is missing. -/
def makeDir (context : GitContext) (host : Host) : List CString :=
  if host.auditDir then []
  else [snprintf 512 (lit "mkdir -p \"" ++ context.auditPath.1 ++ lit "\"")]

/-- What the shell gets for a command of git. -/
def GitCommand.line (context : GitContext) (command : GitCommand) : CString :=
  lit "cd \"" ++ context.repoPath.1 ++ lit "\" 2>/dev/null && " ++ (lit "git " ++ command.buffer) ++
    lit " 2>&1"

/-- What the shell gets for an operation. -/
def GitCall.lines (context : GitContext) (call : GitCall) : List CString :=
  match call.operation.command with
  | none => []
  | some command =>
    match call.operation with
    | .diff _ _ => [command.line context]
    | _ => makeDir context call.host ++ [command.line context] ++ makeDir context call.later

/-- The line is not cut. -/
theorem fullCommand_line (context : GitContext) {command : GitCommand} (proper : command.Proper) :
    fullCommand context.repoPath.1 command.buffer = command.line context := by
  have path := context.repoPath.2
  have held : command.buffer.length < command.cap := snprintf_length _ proper.room
  have small := proper.small
  have front : (lit "cd \"").length = 4 := by decide
  have middle : (lit "\" 2>/dev/null && git ").length = 21 := by decide
  have tail : (lit " 2>&1").length = 5 := by decide
  have joined : lit "\" 2>/dev/null && git " = lit "\" 2>/dev/null && " ++ lit "git " := by decide
  rw [fullCommand, snprintf_eq (by simp only [List.length_append]; omega), joined,
    GitCommand.line]
  simp only [List.append_assoc]

/-- An audited command is handed over between the two entries of the log. -/
theorem runAudited_commands (context : GitContext) (host later : Host) (world : World)
    (cmd operation : CString) (target : Option CString) :
    (runAudited context host later world cmd operation target).1.commands =
      world.commands ++ (makeDir context host ++ [fullCommand context.repoPath.1 cmd] ++
        makeDir context later) := by
  unfold runAudited gitExecAudit gitExec gitAuditWrite makeDir
  dsimp only
  split <;> split <;> simp

/-- One operation hands the shell its lines. -/
theorem gitStep_commands (context : GitContext) (remoteUrl : CString) (world : World)
    (call : GitCall) :
    (gitStep context remoteUrl world call).commands = world.commands ++ call.lines context := by
  obtain ⟨operation, host, later⟩ := call
  have audited {command : GitCommand} (has : operation.command = some command)
      (name : CString) (target : Option CString) :
      (runAudited context host later world command.buffer name target).1.commands =
        world.commands ++ (makeDir context host ++ [command.line context] ++
          makeDir context later) := by
    rw [runAudited_commands, fullCommand_line context (Operation.command_proper has)]
  have idle : world.commands = world.commands ++ [] := (List.append_nil _).symm
  cases operation with
  | clone remote localPath =>
    cases remote with
    | none => exact idle
    | some remote =>
      cases localPath with
      | none => exact idle
      | some localPath => exact audited rfl _ _
  | add path =>
    cases path with
    | none => exact idle
    | some path => exact audited rfl _ _
  | push remote ref =>
    have same := audited rfl (lit "push") (some (remote.getD remoteUrl))
    rw [← remoteBuffer_eq (by decide)] at same
    exact same
  | pull remote ref =>
    have same := audited rfl (lit "pull") (some (remote.getD remoteUrl))
    rw [← remoteBuffer_eq (by decide)] at same
    exact same
  | tag name commit =>
    cases name with
    | none => exact idle
    | some name => exact audited rfl _ _
  | checkout ref =>
    cases ref with
    | none => exact idle
    | some ref => exact audited rfl _ _
  | reset ref hard =>
    cases ref with
    | none => exact idle
    | some ref => exact audited rfl _ _
  | revert commit =>
    cases commit with
    | none => exact idle
    | some commit => exact audited rfl _ _
  | branch name base =>
    cases name with
    | none => exact idle
    | some name => exact audited rfl _ _
  | merge ref message =>
    cases ref with
    | none => exact idle
    | some ref => exact audited rfl _ _
  | diff first second =>
    have has : (Operation.diff first second).command = some (diffCommand first second) := rfl
    have whole := fullCommand_line context (Operation.command_proper has)
    show world.commands ++ [fullCommand context.repoPath.1 _] = _
    rw [whole]
    rfl

/-- A reset to the commit before, and a merge whose message has a command in it. -/
def sampleCalls : List GitCall :=
  let host : Host := ⟨0, true, true, fun _ => none⟩
  [⟨.reset (some (lit "HEAD~1")) 1, host, host⟩,
    ⟨.merge (some (lit "main")) (some (lit "by $(whoami)")), host, host⟩]

end HwrunOs.Git
