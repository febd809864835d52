import HwrunOs.Git.Blame
import HwrunOs.Library.Lines

/-!
# The log

`git_ops_log` of `git/src/history.c` asks for `hash|author|date|subject` lines and takes each apart
at its first three bars. The subject may hold bars, since it is what is left; an author may not.
-/

namespace HwrunOs.Git

open HwrunOs.Bytes

/-- `git_commit_t`. -/
structure GitCommit where
  /-- `hash`. -/
  hash : Field 64
  /-- `author`. -/
  author : Field 128
  /-- `date`. -/
  date : Field 32
  /-- `message`. -/
  message : Field 256
  deriving DecidableEq

/-- The byte between the fields of a line. -/
def bar : UInt8 := 124

/-- `snprintf` behind the text in `char cmd[640]`. -/
def extendCommand (cmd piece : CString) : CString := cmd ++ snprintf (640 - cmd.length) piece

/-- The arguments of git. -/
def logCommand (limit : Int) (since : Option CString) : CString :=
  let plain := lit "log --pretty=format:'%h|%an|%ai|%s'"
  let limited :=
    if 0 < limit then extendCommand plain (lit " -n " ++ signedDecimal limit) else plain
  match since with
  | none => limited
  | some since => if since = [] then limited else extendCommand limited (lit " --since=" ++ since)

/-- The record of a line. Fields for which there is no bar stay empty. -/
def commitRecord (line : CString) : GitCommit :=
  match cutAt bar line with
  | none => ⟨Field.copy [], Field.copy [], Field.copy [], Field.copy []⟩
  | some (hash, rest) =>
    match cutAt bar rest with
    | none => ⟨Field.copy hash, Field.copy [], Field.copy [], Field.copy []⟩
    | some (author, rest) =>
      match cutAt bar rest with
      | none => ⟨Field.copy hash, Field.copy author, Field.copy rest, Field.copy []⟩
      | some (date, message) =>
        ⟨Field.copy hash, Field.copy author, Field.copy date, Field.copy message⟩

/-- The records of an output. -/
def commitRecords (text : CString) : List GitCommit := (lines text).map commitRecord

/-- `git_ops_log`. `NULL` is the empty list. -/
def gitOpsLog (context : GitContext) (host : Host) (world : World) (limit : Int)
    (since : Option CString) : World × List GitCommit :=
  let (world, result) := gitExec context host world none (some (logCommand limit since))
  match (result.filter GitResult.success).bind GitResult.stdout with
  | none => (world, [])
  | some output => (world, commitRecords (bufferText output))

/-! ## What git prints -/

/-- What git prints of a commit. -/
structure LoggedCommit where
  /-- Its abbreviated hash. -/
  hash : LineText
  /-- A hash has no bar. -/
  hash_bar : bar ∉ hash.1
  /-- The name of its author. -/
  author : LineText
  /-- The date of its author. -/
  date : LineText
  /-- A date has no bar. -/
  date_bar : bar ∉ date.1
  /-- Its subject. -/
  subject : LineText

namespace LoggedCommit

/-- What stands on the line behind the hash. -/
def details (commit : LoggedCommit) : CString :=
  commit.author.1 ++ bar :: (commit.date.1 ++ bar :: commit.subject.1)

/-- The line of a commit. -/
def line (commit : LoggedCommit) : CString := commit.hash.1 ++ bar :: commit.details

/-- The record asked for. -/
def wanted (commit : LoggedCommit) : GitCommit :=
  ⟨Field.copy commit.hash.1, Field.copy commit.author.1, Field.copy commit.date.1,
    Field.copy commit.subject.1⟩

/-- The author has no bar; or the name is long enough in front of its first bar, and the text that
is then taken for the date and the subject has the right beginnings. -/
def Kept (commit : LoggedCommit) : Prop :=
  bar ∉ commit.author.1 ∨
    ∃ front middle behind, bar ∉ front ∧ bar ∉ middle ∧
      commit.details = front ++ bar :: (middle ++ bar :: behind) ∧ 127 ≤ front.length ∧
      middle.take 31 = commit.date.1.take 31 ∧ behind.take 255 = commit.subject.1.take 255

end LoggedCommit

/-- The output of git: no line feed stands behind the last line. -/
def logOutput (commits : List LoggedCommit) : CString :=
  [newline].intercalate (commits.map LoggedCommit.line)

/-! ## One line -/

/-- A line is taken apart at its first three bars. -/
theorem commitRecord_parts {hash author date : CString} (message : CString)
    (hashBar : bar ∉ hash) (authorBar : bar ∉ author) (dateBar : bar ∉ date) :
    commitRecord (hash ++ bar :: (author ++ bar :: (date ++ bar :: message))) =
      ⟨Field.copy hash, Field.copy author, Field.copy date, Field.copy message⟩ := by
  simp only [commitRecord, cutAt_append hashBar, cutAt_append authorBar, cutAt_append dateBar]

/-- Two texts have the same copy when they begin alike. -/
theorem copy_eq_iff {size : Nat} {text other : CString} :
    (Field.copy text : Bytes.Field (size + 1)) = Field.copy other ↔
      text.take size = other.take size :=
  Subtype.ext_iff

/-- The line of a commit is read as the record asked for exactly when its author is kept. -/
theorem commitRecord_line_iff (commit : LoggedCommit) :
    commitRecord commit.line = commit.wanted ↔ commit.Kept := by
  by_cases authorBar : bar ∈ commit.author.1
  · obtain ⟨front, rest, split, frontBar⟩ := List.eq_append_cons_of_mem authorBar
    have middleBar : bar ∈ rest ++ bar :: (commit.date.1 ++ bar :: commit.subject.1) := by simp
    obtain ⟨middle, behind, whole, plain⟩ := List.eq_append_cons_of_mem middleBar
    have details : commit.details = front ++ bar :: (middle ++ bar :: behind) := by
      rw [LoggedCommit.details, split, List.append_assoc, List.cons_append, whole]
    have read := commitRecord_parts behind commit.hash_bar frontBar plain
    rw [← details, ← LoggedCommit.line] at read
    have long : front.take 127 = commit.author.1.take 127 ↔ 127 ≤ front.length := by
      constructor
      · intro same
        have lengths := congrArg List.length same
        rw [split] at lengths
        simp only [List.length_take, List.length_append, List.length_cons] at lengths
        omega
      · intro enough
        rw [split, List.take_append_of_le_length enough]
    constructor
    · intro same
      rw [read, LoggedCommit.wanted, GitCommit.mk.injEq] at same
      obtain ⟨-, author, date, message⟩ := same
      exact .inr ⟨front, middle, behind, frontBar, plain, details,
        long.mp (copy_eq_iff.mp author), copy_eq_iff.mp date, copy_eq_iff.mp message⟩
    · rintro (clean | ⟨first, second, third, firstBar, secondBar, parts, enough, date, message⟩)
      · exact absurd authorBar clean
      · have read := commitRecord_parts third commit.hash_bar firstBar secondBar
        rw [← parts, ← LoggedCommit.line] at read
        have author : first.take 127 = commit.author.1.take 127 := by
          have begins : first.take 127 = commit.details.take 127 := by
            rw [parts, List.take_append_of_le_length enough]
          have inside : 127 ≤ commit.author.1.length := by
            have cut := congrArg (cutAt bar) (details.symm.trans parts)
            rw [cutAt_append frontBar, cutAt_append firstBar, Option.some.injEq,
              Prod.mk.injEq] at cut
            rw [split, List.length_append, cut.1]
            omega
          rw [begins, LoggedCommit.details, List.take_append_of_le_length inside]
        rw [read, LoggedCommit.wanted, GitCommit.mk.injEq]
        exact ⟨rfl, copy_eq_iff.mpr author, copy_eq_iff.mpr date, copy_eq_iff.mpr message⟩
  · have read := commitRecord_parts commit.subject.1 commit.hash_bar authorBar commit.date_bar
    exact ⟨fun _ => .inl authorBar, fun _ => read⟩

/-! ## The whole output -/

/-- The line of a commit has neither a NUL nor a line feed. -/
theorem LoggedCommit.line_plain (commit : LoggedCommit) : Plain commit.line := by
  have parted {back : CString} (plain : Plain back) : Plain (bar :: back) :=
    plain_cons (by decide) (by decide) plain
  exact plain_append commit.hash.2
    (parted (plain_append commit.author.2
      (parted (plain_append commit.date.2 (parted commit.subject.2)))))

/-- Every line of the output is read as one record, in order. -/
theorem commitRecords_output (commits : List LoggedCommit) :
    commitRecords (bufferText (logOutput commits)) =
      commits.map fun commit => commitRecord commit.line := by
  have plain : ∀ line ∈ commits.map LoggedCommit.line, newline ∉ line ∧ line ≠ [] := by
    intro line listed
    obtain ⟨commit, -, rfl⟩ := List.mem_map.mp listed
    refine ⟨fun feed => (commit.line_plain newline feed).2 rfl, ?_⟩
    simp [LoggedCommit.line]
  have zero : (0 : UInt8) ∉ logOutput commits := by
    intro found
    rcases mem_intercalate found with feed | ⟨line, listed, inside⟩
    · cases feed
    · obtain ⟨commit, -, rfl⟩ := List.mem_map.mp listed
      exact (commit.line_plain 0 inside).1 rfl
  rw [bufferText_eq zero, commitRecords, logOutput, lines_intercalate _ plain, List.map_map]
  rfl

/-- Every commit has its record, in order, exactly when every author is kept. -/
theorem gitOpsLog_records_iff (context : GitContext) (host : Host) (world : World) (limit : Int)
    (since : Option CString) (commits : List LoggedCommit)
    (ran : host.popen (fullCommand context.repoPath.1 (logCommand limit since)) =
      some ⟨logOutput commits, 0⟩) :
    (gitOpsLog context host world limit since).2 = commits.map LoggedCommit.wanted ↔
      ∀ commit ∈ commits, commit.Kept := by
  have records : (gitOpsLog context host world limit since).2 =
      commitRecords (bufferText (logOutput commits)) := by
    simp [gitOpsLog, gitExec, ran, resultOf, Option.filter]
  rw [records, commitRecords_output, List.map_inj_left]
  constructor
  · intro all commit listed
    exact (commitRecord_line_iff commit).mp (all commit listed)
  · intro all commit listed
    exact (commitRecord_line_iff commit).mpr (all commit listed)

/-! ## A name with a bar -/

/-- A commit of an author whose name has a bar. -/
def barredCommit : LoggedCommit where
  hash := ⟨lit "83baae6", by decide +kernel⟩
  hash_bar := by decide +kernel
  author := ⟨lit "Ann | Bob", by decide +kernel⟩
  date := ⟨lit "2026-01-01 12:00:00 +0800", by decide +kernel⟩
  date_bar := by decide +kernel
  subject := ⟨lit "initial import", by decide +kernel⟩

/-- A system where git prints it. -/
def loggingHost : Host where
  now := 0
  auditDir := true
  logOpens := true
  popen _ := some ⟨logOutput [barredCommit], 0⟩

/-- Half of the name is taken for the date, and the date for the subject. -/
theorem barred_misread :
    (gitOpsLog sampleContext loggingHost ⟨none, []⟩ 10 none).2 =
        [⟨Field.copy (lit "83baae6"), Field.copy (lit "Ann "), Field.copy (lit " Bob"),
          Field.copy (lit "2026-01-01 12:00:00 +0800|initial import")⟩] ∧
      (gitOpsLog sampleContext loggingHost ⟨none, []⟩ 10 none).2 ≠
        [barredCommit].map LoggedCommit.wanted := by
  decide +kernel

/-- The theorem there. -/
theorem gitOpsLog_records_iff_barred :
    (gitOpsLog sampleContext loggingHost ⟨none, []⟩ 10 none).2 =
        [barredCommit].map LoggedCommit.wanted ↔ ∀ commit ∈ [barredCommit], commit.Kept :=
  gitOpsLog_records_iff sampleContext loggingHost ⟨none, []⟩ 10 none [barredCommit] rfl

end HwrunOs.Git
