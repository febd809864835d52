import HwrunOs.Library.Bytes

/-!
# Running git

`git/src/executor.c`: a command is handed to the shell through `popen`, in the work directory,
and every command of an operation is written to the audit log before and after it. Commands and
log entries go to a `World`; what the system answers is a `Host`.
-/

namespace HwrunOs.Git

open HwrunOs.Bytes

/-- The part of `git_context_t` that the operations read. -/
structure GitContext where
  /-- The main repository. -/
  repoPath : Field 256
  /-- The directory of the audit log. -/
  auditPath : Field 256

/-- What git leaves behind. -/
structure World where
  /-- The bytes of `audit.log`, or `none` when there is no such file. -/
  auditLog : Option CString
  /-- The commands handed to `system` and `popen`, in order. -/
  commands : List CString

/-- How a command that was started ends. -/
structure Outcome where
  /-- Its output. -/
  output : CString
  /-- What `pclose` returns. -/
  status : Int

/-- The answers of the system. -/
structure Host where
  /-- `time(NULL)`. -/
  now : Int
  /-- The audit directory exists. -/
  auditDir : Bool
  /-- `fopen(path, "a")` succeeds. -/
  logOpens : Bool
  /-- `popen`, or `none` when it fails. -/
  popen : CString → Option Outcome

/-- `git_result_t`. -/
structure GitResult where
  /-- Whether the command succeeded. -/
  success : Bool
  /-- Its exit status. -/
  exitCode : Int
  /-- Its output. -/
  stdout : Option CString
  /-- The description of an error. -/
  error : Field 256

/-! ## Commands -/

/-- The command that `git_exec` hands to the shell: `char full[4096]`. -/
def fullCommand (work cmd : CString) : CString :=
  snprintf 4096 (lit "cd \"" ++ work ++ lit "\" 2>/dev/null && git " ++ cmd ++ lit " 2>&1")

/-- The result of a command that `popen` started. -/
def resultOf (outcome : Outcome) : GitResult where
  success := outcome.status = 0
  exitCode := outcome.status
  stdout := some outcome.output
  error := if outcome.status = 0 then Field.copy []
    else Field.copy (lit "git 命令失败, exit_code=" ++ signedDecimal outcome.status)

/-- The result of a command that `popen` could not start. -/
def notStarted : GitResult := ⟨false, 0, none, Field.copy (lit "popen 失败: 无法启动 git")⟩

/-- `git_exec`. -/
def gitExec (context : GitContext) (host : Host) (world : World) (cwd cmd : Option CString) :
    World × Option GitResult :=
  match cmd with
  | none => (world, none)
  | some cmd =>
    let full := fullCommand (cwd.getD context.repoPath.1) cmd
    ({ world with commands := world.commands ++ [full] },
      some (((host.popen full).map resultOf).getD notStarted))

/-! ## The audit log -/

/-- What `git_audit_write` is given. -/
structure AuditCall where
  /-- Who acts. -/
  user : Option CString
  /-- The operation. -/
  operation : Option CString
  /-- What it acts on. -/
  target : Option CString
  /-- The message. -/
  message : Option CString
  /-- Whether it succeeded. -/
  success : Bool

namespace AuditCall

/-- The user that is written. -/
def userText (call : AuditCall) : CString := call.user.getD (lit "system")

/-- The operation that is written. -/
def operationText (call : AuditCall) : CString := call.operation.getD (lit "unknown")

/-- The target that is written. -/
def targetText (call : AuditCall) : CString := call.target.getD []

/-- The message that is written. -/
def messageText (call : AuditCall) : CString := call.message.getD []

/-- The result that is written. -/
def resultText (call : AuditCall) : CString := if call.success then lit "success" else lit "failed"

/-- The text of the line, whole. -/
def text (call : AuditCall) (now : Int) : CString :=
  lit "\x7b\"ts\":" ++ signedDecimal now ++ lit ",\"user\":\"" ++ call.userText ++
    lit "\",\"op\":\"" ++ call.operationText ++ lit "\",\"target\":\"" ++ call.targetText ++
    lit "\",\"msg\":\"" ++ call.messageText ++ lit "\",\"result\":\"" ++ call.resultText ++
    lit "\"\x7d\n"

/-- The line that is written: `char line[1024]`. -/
def line (call : AuditCall) (now : Int) : CString := snprintf 1024 (call.text now)

end AuditCall

/-- `git_audit_write`. -/
def gitAuditWrite (context : GitContext) (host : Host) (world : World) (call : AuditCall) :
    World :=
  let made := if host.auditDir then world.commands
    else world.commands ++ [snprintf 512 (lit "mkdir -p \"" ++ context.auditPath.1 ++ lit "\"")]
  let log := if host.logOpens then some (world.auditLog.getD [] ++ call.line host.now)
    else world.auditLog
  ⟨log, made⟩

/-- `git_exec_audit`. The command is the message of both entries; the second is written `later`. -/
def gitExecAudit (context : GitContext) (host later : Host) (world : World)
    (cwd cmd user operation target : Option CString) : World × Option GitResult :=
  let before := gitAuditWrite context host world ⟨user, operation, target, cmd, false⟩
  let (after, result) := gitExec context host before cwd cmd
  let success := (result.map GitResult.success).getD false
  (gitAuditWrite context later after ⟨user, operation, target, cmd, success⟩, result)

end HwrunOs.Git
