import HwrunOs.Loader.ElfReads

/-!
# Running a file

`loader_run_impl` detects the format of a file and runs what it can: an ELF executable in a child
that it forks, a script by `execvp` in the calling process. So the caller goes on exactly when no
script takes its place and the ELF header is read inside of its buffer.
-/

namespace HwrunOs.Loader

open HwrunOs.Bytes

/-! ## Detecting the format -/

/-- `-ENOEXEC`. -/
def enoexec : Int := -8
/-- `-ENOMEM`. -/
def enomem : Int := -12
/-- `-EINVAL`. -/
def einval : Int := -22
/-- `-EFBIG`. -/
def efbig : Int := -27
/-- `HWRUN_ENOTSUP`. -/
def hwrunEnotsup : Int := -95

/-- A value of `errno` after a failure. -/
abbrev Errno := { errno : Nat // 0 < errno }

/-- What a function returns for an error. -/
def Errno.rc (errno : Errno) : Int := -(errno.val : Int)

/-- `loader_format_t`. -/
inductive Format where
  | unknown
  | elf
  | pe
  | macho
  | apk
  | wasm
  | script
  | java
  deriving DecidableEq

/-- `magic_entry_t`. -/
structure MagicEntry where
  /-- `format`. -/
  format : Format
  /-- `name`. -/
  name : CString
  /-- `magic`. -/
  magic : List UInt8

/-- `magic_table`. -/
def magicTable : List MagicEntry :=
  [⟨.elf, lit "ELF", elfMagic⟩, ⟨.pe, lit "PE/COFF", [0x4d, 0x5a]⟩,
    ⟨.macho, lit "Mach-O", [0xfe, 0xed, 0xfa, 0xcf]⟩, ⟨.wasm, lit "WASM", [0x00, 0x61, 0x73, 0x6d]⟩,
    ⟨.apk, lit "APK", [0x50, 0x4b, 0x03, 0x04]⟩, ⟨.java, lit "Java", [0xca, 0xfe, 0xba, 0xbe]⟩]

/-- `MAGIC_MACHOBE`. -/
def magicMachobe : List UInt8 := [0xce, 0xfa, 0xed, 0xfe]

/-- The bytes that a script begins with. -/
def shebang : List UInt8 := [35, 33]

/-- What `loader_detect_impl` returns and stores; no text for one that is not stored. -/
structure Detection where
  /-- The result. -/
  rc : Int
  /-- The format. -/
  fmt : Format
  /-- The name of the format. -/
  formatName : Option CString
  /-- The interpreter. -/
  interpreter : Option CString

/-- The interpreter of a script: the bytes behind the first two up to a blank, a zero byte or the
end of what was read, or nothing when there is no room. -/
def scriptInterpreter (hdr : List UInt8) (interpSize : Nat) : CString :=
  let text := (hdr.drop 2).takeWhile fun byte =>
    !(byte == 0 || byte == newline || byte == 32 || byte == 9)
  if text ≠ [] ∧ text.length < interpSize - 1 then text else []

/-- A text that is stored when there is a buffer for it. -/
def stored (size : Nat) (text : CString) : Option CString :=
  if size = 0 then none else some (snprintf size text)

/-- `loader_detect_impl` on what `fopen` and `fread` deliver; a size of zero is that of a missing
buffer. -/
def loaderDetectImpl (file : Except Errno (List UInt8)) (nameSize interpSize : Nat) : Detection :=
  match file with
  | .error errno => ⟨errno.rc, .unknown, none, none⟩
  | .ok bytes =>
    let hdr := bytes.take 64
    if hdr = [] then ⟨enoexec, .unknown, none, none⟩
    else if shebang.isPrefixOf hdr then
      ⟨0, .script, stored nameSize (lit "Script"),
        stored interpSize (scriptInterpreter hdr interpSize)⟩
    else if magicMachobe.isPrefixOf hdr then
      ⟨0, .macho, stored nameSize (lit "Mach-O"), stored interpSize []⟩
    else match magicTable.find? fun entry => entry.magic.isPrefixOf hdr with
      | some entry => ⟨0, entry.format, stored nameSize entry.name, stored interpSize []⟩
      | none => ⟨enoexec, .unknown, stored nameSize (lit "Unknown"), none⟩

/-! ## Processes -/

/-- What `waitpid` says of a child. -/
inductive WaitStatus where
  /-- `WIFEXITED`. -/
  | exited (code : Fin 256)
  /-- `WIFSIGNALED`. -/
  | signaled (signal : Fin 128)
  /-- Neither, which `waitpid` without options does not say of a child that is not traced. -/
  | other

/-- The exit status that `run_exec` makes of it. -/
def WaitStatus.code : WaitStatus → Nat
  | .exited code => code
  | .signaled signal => 128 + signal
  | .other => 0

/-- What the system answers during a call. -/
structure Host where
  /-- The file. -/
  file : Except Errno (List UInt8)
  /-- An error in `read_all` behind `fopen`. -/
  readError : Option Errno
  /-- The address of its buffer. -/
  base : Nat
  /-- Whether `calloc` succeeds. -/
  memory : Bool
  /-- `execvp`: the error when it returns. -/
  execvp : CString → List CString → Option Errno
  /-- `fork`: an error or the pid of the child. -/
  fork : Except Errno Nat
  /-- An error of `waitpid`. -/
  waitError : Option Errno
  /-- How a program that was started ends. -/
  ended : WaitStatus

/-- `read_all`. -/
def readAll (host : Host) : Except Int Buffer :=
  match host.file with
  | .error errno => .error errno.rc
  | .ok bytes =>
    if small : bytes.length ≤ 64 * 1024 * 1024 then
      match host.readError with
      | some errno => .error errno.rc
      | none =>
        if low : host.base + bytes.length ≤ 2 ^ 63 then .ok ⟨host.base, bytes, small, low⟩
        else .error enomem
    else .error efbig

/-- A child that was forked to run a program. -/
structure Child where
  /-- Its pid. -/
  pid : Nat
  /-- The program. -/
  program : CString
  /-- Its arguments. -/
  args : List CString

/-- How a child ends: with 126 when its program cannot be started. -/
def Host.status (host : Host) (child : Child) : WaitStatus :=
  match host.execvp child.program child.args with
  | some _ => .exited 126
  | none => host.ended

/-- How a call ends for the calling process. -/
inductive Ending where
  /-- It returns. -/
  | returned (rc : Int)
  /-- Another program takes the place of the process. -/
  | replaced (program : CString) (args : List CString)

/-- What a call leaves. -/
structure Run where
  /-- How it ends. -/
  ending : Ending
  /-- The child it forked. -/
  child : Option Child
  /-- What it stored in `exit_code`. -/
  exitCode : Option Int

/-- `loader_is_library`. -/
def loaderIsLibrary (info : ElfInfo) : Bool := info.eType == 3 && !info.hasInterp

/-- `run_script`: the interpreter is started in the calling process. -/
def runScript (host : Host) (path : CString) (argv : Option (List CString)) : Ending :=
  let detection := loaderDetectImpl host.file 0 256
  let interp := detection.interpreter.getD []
  if detection.rc < 0 then .returned enoexec
  else if detection.fmt ≠ .script ∨ interp = [] then .returned enoexec
  else if !host.memory then .returned enomem
  else
    let childArgv := interp :: path :: argv.getD []
    match host.execvp interp childArgv with
    | some errno => .returned errno.rc
    | none => .replaced interp childArgv

/-- `run_exec`: the program is started in a child. -/
def runExec (host : Host) (path : CString) (argv : Option (List CString)) (wait : Bool) : Run :=
  match host.fork with
  | .error errno => ⟨.returned errno.rc, none, some 0⟩
  | .ok pid =>
    let child : Child := ⟨pid, path, argv.getD [path]⟩
    if !wait then ⟨.returned pid, some child, some 0⟩
    else match host.waitError with
      | some errno => ⟨.returned errno.rc, some child, some 0⟩
      | none =>
        let n := (host.status child).code
        ⟨.returned n, some child, some n⟩

/-- A call that returns an error without a child. -/
def failed (rc : Int) : Run := ⟨.returned rc, none, some 0⟩

/-- `loader_run_impl`, undefined where `loader_elf_impl` is. -/
def loaderRunImpl (host : Host) (path : Option CString) (argv : Option (List CString))
    (wait : Bool) : Option Run :=
  match path with
  | none => some ⟨.returned einval, none, none⟩
  | some path =>
    let detection := loaderDetectImpl host.file 0 0
    if detection.rc < 0 then some (failed enoexec)
    else match detection.fmt with
      | .script => some ⟨runScript host path argv, none, some 0⟩
      | .elf =>
        match loaderElfImpl true (readAll host) with
        | none => none
        | some (.error _) => some (failed enoexec)
        | some (.ok info) =>
          if loaderIsLibrary info then some (failed hwrunEnotsup)
          else some (runExec host path argv wait)
      | _ => some (failed hwrunEnotsup)

/-! ## The claim and its condition -/

/-- A return value: a negative error, the pid of the child or, when it is waited for, its exit
status, which is stored too. -/
def Reports (host : Host) (wait : Bool) (run : Run) (rc : Int) : Prop :=
  rc < 0 ∨ ∃ child, run.child = some child ∧ (wait = false → rc = child.pid) ∧
    (wait = true → rc = (host.status child).code ∧ run.exitCode = some rc)

/-- The calling process goes on and gets a return value. -/
def CallerContinues (host : Host) (wait : Bool) (outcome : Option Run) : Prop :=
  ∃ run rc, outcome = some run ∧ run.ending = .returned rc ∧ Reports host wait run rc

/-- No interpreter can be started in the calling process, and an ELF header is read inside of its
buffer. -/
structure LeavesCaller (host : Host) (path : CString) (argv : Option (List CString)) : Prop where
  /-- A script has no interpreter, there is no memory, or `execvp` fails. -/
  script : ∀ bytes, host.file = .ok bytes → shebang.isPrefixOf bytes = true →
    scriptInterpreter (bytes.take 64) 256 ≠ [] → host.memory = true →
      (host.execvp (scriptInterpreter (bytes.take 64) 256)
        (scriptInterpreter (bytes.take 64) 256 :: path :: argv.getD [])).isSome = true
  /-- The file of an ELF header. -/
  elf : ∀ m, readAll host = .ok m → IsElf m.bytes → Inside m

/-! ## Formats -/

/-- A prefix of the head of a file is one of the file. -/
theorem isPrefixOf_head {magic bytes : List UInt8} (short : magic.length ≤ 64) :
    magic.isPrefixOf (bytes.take 64) = magic.isPrefixOf bytes := by
  rw [Bool.eq_iff_iff, List.isPrefixOf_iff_prefix, List.isPrefixOf_iff_prefix, List.prefix_take_iff]
  exact and_iff_left short

/-- A script is detected as one. -/
theorem detect_script {bytes : List UInt8} (script : shebang.isPrefixOf bytes = true)
    (nameSize interpSize : Nat) :
    loaderDetectImpl (.ok bytes) nameSize interpSize =
      ⟨0, .script, stored nameSize (lit "Script"),
        stored interpSize (scriptInterpreter (bytes.take 64) interpSize)⟩ := by
  have head : shebang.isPrefixOf (bytes.take 64) = true := by
    rw [isPrefixOf_head (by decide)]
    exact script
  have filled : bytes.take 64 ≠ [] := by
    intro empty
    rw [empty] at head
    cases head
  unfold loaderDetectImpl
  dsimp only
  rw [if_neg filled, if_pos head]

/-- Nothing else is detected as a script. -/
theorem detect_not_script {bytes : List UInt8} (other : shebang.isPrefixOf bytes = false)
    (nameSize interpSize : Nat) :
    (loaderDetectImpl (.ok bytes) nameSize interpSize).fmt ≠ .script := by
  unfold loaderDetectImpl
  dsimp only
  rw [isPrefixOf_head (by decide), other]
  split
  · simp
  · split
    · simp_all
    · split
      · simp
      · split
        · rename_i entry found
          have listed := List.mem_of_find?_eq_some found
          have table : ∀ entry ∈ magicTable, entry.format ≠ .script := by decide
          exact table entry listed
        · simp

/-- A file with an ELF header is detected as one. -/
theorem detect_elf {bytes : List UInt8} (elf : IsElf bytes) (nameSize interpSize : Nat) :
    (loaderDetectImpl (.ok bytes) nameSize interpSize).fmt = .elf ∧
      (loaderDetectImpl (.ok bytes) nameSize interpSize).rc = 0 := by
  have whole : bytes = elfMagic ++ bytes.drop 4 := by
    rw [← elf.2, List.take_append_drop]
  rw [whole]
  exact ⟨rfl, rfl⟩

/-- What a call does with a file that is detected. -/
theorem loaderRunImpl_elf {host : Host} {path : CString} {argv : Option (List CString)}
    {wait : Bool} (kind : (loaderDetectImpl host.file 0 0).fmt = .elf)
    (known : (loaderDetectImpl host.file 0 0).rc = 0) :
    loaderRunImpl host (some path) argv wait =
      (loaderElfImpl true (readAll host)).map fun
        | .error _ => failed enoexec
        | .ok info =>
          if loaderIsLibrary info then failed hwrunEnotsup else runExec host path argv wait := by
  unfold loaderRunImpl
  dsimp only
  rw [kind, known, if_neg (by decide)]
  dsimp only
  cases loaderElfImpl true (readAll host) with
  | none => rfl
  | some parsed =>
    cases parsed with
    | error code => rfl
    | ok info =>
      dsimp only [Option.map_some]
      split <;> rfl

/-- A call that returns an error lets the caller continue. -/
theorem callerContinues_failed (host : Host) (wait : Bool) {rc : Int} (negative : rc < 0) :
    CallerContinues host wait (some (failed rc)) := ⟨_, rc, rfl, rfl, .inl negative⟩

/-- An error is negative. -/
theorem Errno.rc_neg (errno : Errno) : errno.rc < 0 := by
  have positive := errno.property
  unfold Errno.rc
  omega

/-- `run_exec` lets the caller continue. -/
theorem callerContinues_runExec (host : Host) (path : CString) (argv : Option (List CString))
    (wait : Bool) : CallerContinues host wait (some (runExec host path argv wait)) := by
  unfold runExec
  cases host.fork with
  | error errno => exact ⟨_, _, rfl, rfl, .inl errno.rc_neg⟩
  | ok pid =>
    cases wait with
    | false => exact ⟨_, _, rfl, rfl, .inr ⟨_, rfl, fun _ => rfl, fun waits => nomatch waits⟩⟩
    | true =>
      cases host.waitError with
      | some errno => exact ⟨_, _, rfl, rfl, .inl errno.rc_neg⟩
      | none =>
        exact ⟨_, _, rfl, rfl, .inr ⟨_, rfl, (fun waits => nomatch waits), fun _ => ⟨rfl, rfl⟩⟩⟩

/-- A script lets the caller continue exactly when its interpreter is not started. -/
theorem callerContinues_script {host : Host} {path : CString} {argv : Option (List CString)}
    {wait : Bool} {bytes : List UInt8} (file : host.file = .ok bytes)
    (script : shebang.isPrefixOf bytes = true) :
    CallerContinues host wait (loaderRunImpl host (some path) argv wait) ↔
      (scriptInterpreter (bytes.take 64) 256 ≠ [] → host.memory = true →
        (host.execvp (scriptInterpreter (bytes.take 64) 256)
          (scriptInterpreter (bytes.take 64) 256 :: path :: argv.getD [])).isSome = true) := by
  have short : snprintf 256 (scriptInterpreter (bytes.take 64) 256) =
      scriptInterpreter (bytes.take 64) 256 := by
    apply snprintf_eq
    unfold scriptInterpreter
    dsimp only
    split
    · omega
    · decide
  have ran : loaderRunImpl host (some path) argv wait =
      some ⟨runScript host path argv, none, some 0⟩ := by
    unfold loaderRunImpl
    dsimp only
    rw [file, detect_script script]
    rfl
  have ending : runScript host path argv =
      if scriptInterpreter (bytes.take 64) 256 = [] then .returned enoexec
      else if host.memory = false then .returned enomem
      else match host.execvp (scriptInterpreter (bytes.take 64) 256)
          (scriptInterpreter (bytes.take 64) 256 :: path :: argv.getD []) with
        | some errno => .returned errno.rc
        | none => .replaced (scriptInterpreter (bytes.take 64) 256)
          (scriptInterpreter (bytes.take 64) 256 :: path :: argv.getD []) := by
    unfold runScript
    dsimp only
    rw [file, detect_script script]
    simp [stored, short]
  have returns {rc : Int} (here : runScript host path argv = .returned rc) (negative : rc < 0) :
      CallerContinues host wait (loaderRunImpl host (some path) argv wait) := by
    rw [ran]
    exact ⟨_, rc, rfl, here, .inl negative⟩
  by_cases empty : scriptInterpreter (bytes.take 64) 256 = []
  · rw [if_pos empty] at ending
    exact ⟨fun _ filled => absurd empty filled, fun _ => returns ending (by decide)⟩
  · rw [if_neg empty] at ending
    cases memory : host.memory with
    | false =>
      rw [if_pos memory] at ending
      exact ⟨fun _ _ impossible => (nomatch impossible), fun _ => returns ending (by decide)⟩
    | true =>
      rw [if_neg (by simp [memory])] at ending
      cases started : host.execvp (scriptInterpreter (bytes.take 64) 256)
          (scriptInterpreter (bytes.take 64) 256 :: path :: argv.getD []) with
      | some errno =>
        rw [started] at ending
        exact ⟨fun _ _ _ => rfl, fun _ => returns ending errno.rc_neg⟩
      | none =>
        rw [started] at ending
        constructor
        · rintro ⟨run, rc, outcome, here, -⟩
          rw [ran] at outcome
          obtain rfl := Option.some.inj outcome
          rw [show runScript host path argv = _ from here] at ending
          cases ending
        · intro starts
          exact nomatch starts empty rfl

/-- A file with an ELF header lets the caller continue exactly when the header is read inside of its
buffer. -/
theorem callerContinues_elf {host : Host} {path : CString} {argv : Option (List CString)}
    {wait : Bool} (kind : (loaderDetectImpl host.file 0 0).fmt = .elf)
    (known : (loaderDetectImpl host.file 0 0).rc = 0) :
    CallerContinues host wait (loaderRunImpl host (some path) argv wait) ↔
      ∀ m, readAll host = .ok m → IsElf m.bytes → Inside m := by
  rw [loaderRunImpl_elf kind known]
  have goes (parsed : Except Int ElfInfo) : CallerContinues host wait ((some parsed).map fun
      | .error _ => failed enoexec
      | .ok info =>
        if loaderIsLibrary info then failed hwrunEnotsup else runExec host path argv wait) := by
    rw [Option.map_some]
    cases parsed with
    | error code => exact callerContinues_failed host wait (by decide)
    | ok info =>
      dsimp only
      split
      · exact callerContinues_failed host wait (by decide)
      · exact callerContinues_runExec host path argv wait
  cases read : readAll host with
  | error code => exact ⟨fun _ _ impossible => (nomatch impossible), fun _ => goes (.error code)⟩
  | ok m =>
    show CallerContinues host wait ((parseElf m).map _) ↔ _
    by_cases elf : IsElf m.bytes
    · by_cases inside : Inside m
      · obtain ⟨sectionNames, parsed⟩ := (parseElf_eq elf).1 inside
        rw [parsed]
        constructor
        · rintro - _ ⟨⟩ -
          exact inside
        · exact fun _ => goes _
      · rw [(parseElf_eq elf).2 inside]
        constructor
        · rintro ⟨run, rc, impossible, -⟩
          cases impossible
        · exact fun reads => absurd (reads m rfl elf) inside
    · have parsed : parseElf m = some (.error (-8)) := if_pos elf
      rw [parsed]
      constructor
      · rintro - _ ⟨⟩ other
        exact absurd other elf
      · exact fun _ => goes _

/-- A format that is known is returned with success. -/
theorem detect_known {file : Except Errno (List UInt8)} {nameSize interpSize : Nat}
    (known : (loaderDetectImpl file nameSize interpSize).fmt ≠ .unknown) :
    (loaderDetectImpl file nameSize interpSize).rc = 0 := by
  unfold loaderDetectImpl at known ⊢
  cases file with
  | error errno => exact absurd rfl known
  | ok bytes =>
    dsimp only at known ⊢
    split at known <;> rename_i first
    · exact absurd rfl known
    · rw [if_neg first]
      split at known <;> rename_i second
      · rw [if_pos second]
      · rw [if_neg second]
        split at known <;> rename_i third
        · rw [if_pos third]
        · rw [if_neg third]
          split at known
          · rfl
          · exact absurd rfl known

/-- A file in no format that is run lets the caller continue. -/
theorem callerContinues_other {host : Host} {path : CString} {argv : Option (List CString)}
    {wait : Bool} (script : (loaderDetectImpl host.file 0 0).fmt ≠ .script)
    (elf : (loaderDetectImpl host.file 0 0).fmt ≠ .elf) :
    CallerContinues host wait (loaderRunImpl host (some path) argv wait) := by
  unfold loaderRunImpl
  dsimp only
  split
  · exact callerContinues_failed host wait (by decide)
  · cases kind : (loaderDetectImpl host.file 0 0).fmt with
    | script => exact absurd kind script
    | elf => exact absurd kind elf
    | _ => exact callerContinues_failed host wait (by decide)

/-- The buffer of `read_all` has the bytes of the file. -/
theorem readAll_bytes {host : Host} {m : Buffer} (read : readAll host = .ok m) :
    host.file = .ok m.bytes := by
  unfold readAll at read
  split at read
  · cases read
  · rename_i bytes file
    split at read
    · split at read
      · cases read
      · split at read
        · obtain rfl := Except.ok.inj read
          exact file
        · cases read
    · cases read

/-- An ELF file is no script. -/
theorem IsElf.notScript {bytes : List UInt8} (elf : IsElf bytes) :
    shebang.isPrefixOf bytes = false := by
  rw [← List.take_append_drop 4 bytes, elf.2]
  rfl

/-- A file that begins with an interpreter has one condition, whether that is started. -/
theorem leavesCaller_script {host : Host} {path : CString} {argv : Option (List CString)}
    {bytes : List UInt8} (file : host.file = .ok bytes)
    (script : shebang.isPrefixOf bytes = true) :
    LeavesCaller host path argv ↔
      (scriptInterpreter (bytes.take 64) 256 ≠ [] → host.memory = true →
        (host.execvp (scriptInterpreter (bytes.take 64) 256)
          (scriptInterpreter (bytes.take 64) 256 :: path :: argv.getD [])).isSome = true) := by
  constructor
  · exact fun leaves => leaves.script bytes file script
  · intro starts
    refine ⟨?_, ?_⟩
    · intro other found _
      rw [file] at found
      obtain rfl := Except.ok.inj found
      exact starts
    · intro m read elf
      have found := readAll_bytes read
      rw [file] at found
      obtain rfl := Except.ok.inj found
      rw [elf.notScript] at script
      cases script

/-- Any other file has one condition, whether its header is read inside of its buffer. -/
theorem leavesCaller_plain {host : Host} (path : CString) (argv : Option (List CString))
    (plain : ∀ bytes, host.file = .ok bytes → shebang.isPrefixOf bytes = false) :
    LeavesCaller host path argv ↔ ∀ m, readAll host = .ok m → IsElf m.bytes → Inside m := by
  constructor
  · exact fun leaves => leaves.elf
  · intro reads
    refine ⟨?_, reads⟩
    intro bytes file script
    rw [plain bytes file] at script
    cases script

/-- A file that does not begin with an interpreter is not detected as a script. -/
theorem detect_plain {host : Host}
    (plain : ∀ bytes, host.file = .ok bytes → shebang.isPrefixOf bytes = false) :
    (loaderDetectImpl host.file 0 0).fmt ≠ .script := by
  cases file : host.file with
  | error errno => nofun
  | ok bytes => exact detect_not_script (plain bytes file) 0 0

/-- The calling process goes on and gets what it should exactly when no interpreter can be started
in it and an ELF header is read inside of its buffer. -/
theorem caller_continues_iff (host : Host) (path : Option CString) (argv : Option (List CString))
    (wait : Bool) :
    CallerContinues host wait (loaderRunImpl host path argv wait) ↔
      ∀ text, path = some text → LeavesCaller host text argv := by
  cases path with
  | none =>
    exact ⟨fun _ _ given => (nomatch given), fun _ => ⟨_, einval, rfl, rfl, .inl (by decide)⟩⟩
  | some text =>
    have only : (∀ other, some text = some other → LeavesCaller host other argv) ↔
        LeavesCaller host text argv := by
      simp only [Option.some.injEq, forall_eq']
    rw [only]
    by_cases script : ∃ bytes, host.file = .ok bytes ∧ shebang.isPrefixOf bytes = true
    · obtain ⟨bytes, file, begins⟩ := script
      rw [callerContinues_script file begins, leavesCaller_script file begins]
    · have plain : ∀ bytes, host.file = .ok bytes → shebang.isPrefixOf bytes = false := by
        intro bytes file
        rw [← Bool.not_eq_true]
        exact fun begins => script ⟨bytes, file, begins⟩
      rw [leavesCaller_plain text argv plain]
      by_cases kind : (loaderDetectImpl host.file 0 0).fmt = .elf
      · have known := detect_known (by rw [kind]; decide)
        exact callerContinues_elf kind known
      · refine iff_of_true (callerContinues_other (detect_plain plain) kind) ?_
        intro m read elf
        rw [readAll_bytes read] at kind
        exact absurd (detect_elf elf 0 0).1 kind

/-- A script of the shell, on a system where everything succeeds. -/
def shellScriptHost : Host where
  file := .ok (lit "#!/bin/sh\necho\n")
  readError := none
  base := 4096
  memory := true
  execvp _ _ := none
  fork := .ok 100
  waitError := none
  ended := .exited 0

/-- The shell takes the place of the process that runs the script. -/
theorem script_replaces_caller :
    ¬ CallerContinues shellScriptHost true
      (loaderRunImpl shellScriptHost (some (lit "/tmp/hello.sh")) none true) := by
  rintro ⟨run, rc, outcome, ending, -⟩
  have replaced : (loaderRunImpl shellScriptHost (some (lit "/tmp/hello.sh")) none true).map
      Run.ending = some (.replaced (lit "/bin/sh") [lit "/bin/sh", lit "/tmp/hello.sh"]) := rfl
  rw [outcome, Option.map_some, ending] at replaced
  cases replaced

end HwrunOs.Loader
