import HwrunOs.Library.Lines
import HwrunOs.Library.Scanf

/-!
# What the system tells of a process

`parse_stat` takes the line of `/proc/<pid>/stat` apart at its first opening and its last closing
parenthesis. The name of the process between them is not escaped: it may hold blanks and
parentheses, and look like the rest of the line.
-/

namespace HwrunOs.Pmp

open HwrunOs.Bytes

/-! ## Records -/

/-- `pmp_task_state_t`. -/
inductive TaskState where
  /-- `R`. -/
  | running
  /-- `S`. -/
  | interruptible
  /-- `D`. -/
  | uninterruptible
  /-- `Z`. -/
  | zombie
  /-- `T`. -/
  | stopped
  /-- `t`. -/
  | tracing
  /-- `X` and `x`. -/
  | dead
  /-- `K`, `W`, `P` and `I`. -/
  | wakekill
  /-- Any other letter. -/
  | unknown
  deriving DecidableEq

/-- `pmp_sched_policy_t`. -/
inductive SchedPolicy where
  /-- `SCHED_OTHER`. -/
  | other
  /-- `SCHED_FIFO`. -/
  | fifo
  /-- `SCHED_RR`. -/
  | rr
  /-- `SCHED_BATCH`. -/
  | batch
  /-- `SCHED_IDLE`. -/
  | idle
  /-- `SCHED_DEADLINE`. -/
  | deadline
  deriving DecidableEq

/-- `pmp_process_info_t`. -/
structure ProcessInfo where
  /-- `pid`. -/
  pid : UInt32
  /-- `ppid`. -/
  ppid : UInt32
  /-- `tgid`. -/
  tgid : UInt32
  /-- `comm`. -/
  comm : Field 64
  /-- `state`. -/
  state : TaskState
  /-- `priority`. -/
  priority : Int
  /-- `nice`. -/
  nice : Int
  /-- `policy`. -/
  policy : SchedPolicy
  /-- `cpu_time_user`. -/
  cpuTimeUser : UInt64
  /-- `cpu_time_system`. -/
  cpuTimeSystem : UInt64
  /-- `cpu_affinity`. -/
  cpuAffinity : UInt32
  /-- `memory_rss`. -/
  memoryRss : UInt64
  /-- `memory_virtual`. -/
  memoryVirtual : UInt64
  /-- `start_time`. -/
  startTime : UInt64
  deriving DecidableEq

/-- A record of zeros, as `memset` leaves it. -/
def ProcessInfo.zero : ProcessInfo :=
  { pid := 0, ppid := 0, tgid := 0, comm := Field.copy [], state := .running, priority := 0,
    nice := 0, policy := .other, cpuTimeUser := 0, cpuTimeSystem := 0, cpuAffinity := 0,
    memoryRss := 0, memoryVirtual := 0, startTime := 0 }

/-! ## The line of a process -/

/-- `map_state`. -/
def mapState (letter : UInt8) : TaskState :=
  if letter = 82 then .running
  else if letter = 83 then .interruptible
  else if letter = 68 then .uninterruptible
  else if letter = 90 then .zombie
  else if letter = 84 then .stopped
  else if letter = 116 then .tracing
  else if letter = 88 ∨ letter = 120 then .dead
  else if letter = 75 ∨ letter = 87 ∨ letter = 80 ∨ letter = 73 then .wakekill
  else .unknown

/-- `(uint32_t)atoi(text)`. -/
def atoiUnsigned (text : CString) : UInt32 := UInt32.ofInt (atoi text)

/-- The name of the process between two parentheses, when the second is behind the first. -/
def commBetween (buf : CString) : Option Nat → Option Nat → CString
  | some lp, some rp => if lp < rp then (buf.drop (lp + 1)).take (rp - lp - 1) else []
  | _, _ => []

/-- The state and the number of the parent behind the name. -/
def parseBehind (text : CString) (info : ProcessInfo) : ProcessInfo :=
  match text.dropWhile isSpace with
  | [] => info
  | letter :: word =>
    let parent := ((letter :: word).dropWhile fun byte => !isSpace byte).dropWhile isSpace
    { info with
      state := mapState letter
      ppid := if parent = [] then info.ppid else atoiUnsigned parent }

/-- `parse_stat`. -/
def parseStat (buf : CString) (info : ProcessInfo) : ProcessInfo :=
  let lp := buf.idxOf? 40
  let rp := lp.bind fun _ => strrchr 41 buf
  parseBehind ((rp.map fun rp => buf.drop (rp + 1)).getD buf)
    { info with
      comm := Field.copy (commBetween buf lp rp)
      pid := if lp.isSome then atoiUnsigned buf else info.pid }

/-! ## The files of a process -/

/-- What `fill_info` asks the system for. -/
structure ProcFiles where
  /-- The files that can be opened, with what stands in them. -/
  files : CString → Option CString
  /-- `errno` where it is returned. -/
  errno : Int
  /-- `sysconf(_SC_PAGESIZE)`. -/
  pageSize : Int

/-- The path of a file of a process. -/
def procPath (pid : Int) (name : String) : CString :=
  snprintf 64 (lit "/proc/" ++ signedDecimal pid ++ lit "/" ++ lit name)

/-- The lines that `fgets` reads from a file of a process. -/
def procLines (proc : ProcFiles) (pid : Int) (name : String) (cap : Nat) : Option (List CString) :=
  (proc.files (procPath pid name)).map fun content => (fgetsLines cap content).map bufferText

/-- Pages as KB, in 64 bits. -/
def pagesKb (proc : ProcFiles) (pages : Nat) : UInt64 :=
  UInt64.ofNat pages * UInt64.ofInt (if proc.pageSize ≤ 0 then 4096 else proc.pageSize) / 1024

/-- `parse_statm`. -/
def parseStatm (proc : ProcFiles) (pid : Int) (info : ProcessInfo) : ProcessInfo :=
  match (proc.files (procPath pid "statm")).map (sscanf [.number, .number]) with
  | some [.number vsz, .number rss] =>
    { info with memoryVirtual := pagesKb proc vsz, memoryRss := pagesKb proc rss }
  | _ => info

/-- The policies that are looked for, in their order. -/
def policyNames : List (CString × SchedPolicy) :=
  [(lit "SCHED_FIFO", .fifo), (lit "SCHED_RR", .rr), (lit "SCHED_BATCH", .batch),
    (lit "SCHED_IDLE", .idle), (lit "SCHED_DEADLINE", .deadline)]

/-- `read_policy`: what the second line names. -/
def readPolicy (proc : ProcFiles) (pid : Int) : SchedPolicy :=
  match procLines proc pid "sched" 128 with
  | some (_ :: line :: _) =>
    ((policyNames.find? fun policy => (strstr policy.1 line).isSome).map Prod.snd).getD .other
  | _ => .other

/-- The first processor that a process may run on. -/
def cpuAllowed (proc : ProcFiles) (pid : Int) : UInt32 :=
  match ((procLines proc pid "status" 256).getD []).find? (lit "Cpus_allowed_list:").isPrefixOf with
  | none => 0
  | some line =>
    let number := (line.drop 18).dropWhile fun byte => !isDigit byte
    if number = [] then 0 else atoiUnsigned number

/-- `fill_info`, with the record that it leaves. -/
def fillInfo (proc : ProcFiles) (pid : Int) : ProcessInfo × Int :=
  match procLines proc pid "stat" 1024 with
  | some (line :: _) =>
    let named := { ProcessInfo.zero with pid := UInt32.ofInt pid, tgid := UInt32.ofInt pid }
    ({ parseStatm proc pid (parseStat line named) with
        policy := readPolicy proc pid
        cpuAffinity := cpuAllowed proc pid
        priority := 0
        nice := 0 }, 0)
  | _ => (.zero, -proc.errno)

/-! ## What the kernel prints -/

/-- A line of `/proc/<pid>/stat`. -/
structure StatLine where
  /-- The process. -/
  pid : UInt32
  /-- Its name. -/
  comm : CString
  /-- The name is one line of a text. -/
  comm_plain : (0 : UInt8) ∉ comm ∧ newline ∉ comm
  /-- The letter of its state. -/
  state : UInt8
  /-- The letter is no blank. -/
  state_solid : isSpace state = false
  /-- Its parent. -/
  ppid : UInt32
  /-- The fields behind, and the line feed. -/
  rest : CString
  /-- A blank sets the fields behind off. -/
  rest_start : ∀ byte ∈ rest.head?, isSpace byte = true
  /-- Nothing behind the name ends the text. -/
  later_plain : (0 : UInt8) ∉ state :: rest
  /-- Nothing behind the name is a closing parenthesis. -/
  later_open : (41 : UInt8) ∉ state :: rest

namespace StatLine

/-- What stands behind the name. -/
def behind (line : StatLine) : CString :=
  32 :: line.state :: 32 :: (decimal line.ppid.toNat ++ line.rest)

/-- The text of a line: `pid (comm) state ppid ...`. -/
def text (line : StatLine) : CString :=
  decimal line.pid.toNat ++ 32 :: 40 :: (line.comm ++ 41 :: line.behind)

/-- The first four fields. -/
def front (line : StatLine) : CString :=
  decimal line.pid.toNat ++ 32 :: 40 :: (line.comm ++
    41 :: 32 :: line.state :: 32 :: decimal line.ppid.toNat)

/-- A line of which the fields behind the first four are cut. -/
def cut (line : StatLine) (room : Nat) : StatLine where
  pid := line.pid
  comm := line.comm
  comm_plain := line.comm_plain
  state := line.state
  state_solid := line.state_solid
  ppid := line.ppid
  rest := line.rest.take room
  rest_start byte head := by
    cases room with
    | zero => cases head
    | succ room =>
      rw [List.head?_take, if_neg (Nat.succ_ne_zero room)] at head
      exact line.rest_start byte head
  later_plain found :=
    line.later_plain (List.cons_subset_cons _ (List.take_subset _ _) found)
  later_open found :=
    line.later_open (List.cons_subset_cons _ (List.take_subset _ _) found)

end StatLine

/-! ## What is read -/

/-- A printed number of 32 bits is read back. -/
theorem atoiUnsigned_decimal (value : UInt32) {rest : CString}
    (ends : ∀ byte ∈ rest.head?, isDigit byte = false) :
    atoiUnsigned (decimal value.toNat ++ rest) = value := by
  have bound := value.toNat_lt
  have read : strtoll (decimal value.toNat ++ rest) = ((value.toNat : Int), rest) := by
    rw [strtoll, scanNumber_decimal value.toNat rest ends]
    simp only [Prod.mk.injEq, and_true]
    omega
  have whole : ((value.toNat : Int).bmod (2 ^ 32)) % 2 ^ 32 = value.toNat := by
    rw [show (2 ^ 32 : Int) = ((2 ^ 32 : Nat) : Int) from rfl, Int.bmod_emod]
    omega
  rw [atoiUnsigned, atoi, read, UInt32.ofInt, whole, Int.toNat_natCast, UInt32.ofNat_toNat]

/-- A blank is no digit. -/
theorem isDigit_space {byte : UInt8} (space : isSpace byte = true) : isDigit byte = false := by
  cases digit : isDigit byte with
  | false => rfl
  | true =>
    rw [(digit_plain digit).1] at space
    cases space

/-- The state and the parent are read behind the name. -/
theorem parseBehind_behind (line : StatLine) (info : ProcessInfo) :
    parseBehind line.behind info =
      { info with state := mapState line.state, ppid := line.ppid } := by
  have ends : ∀ byte ∈ line.rest.head?, isDigit byte = false := fun byte front =>
    isDigit_space (line.rest_start byte front)
  obtain ⟨first, others, digits⟩ := List.exists_cons_of_ne_nil (decimal_ne_nil line.ppid.toNat)
  have solid : isSpace first = false :=
    (digit_plain (decimal_digits line.ppid.toNat first (by simp [digits]))).1
  have letter : line.behind.dropWhile isSpace =
      line.state :: 32 :: (decimal line.ppid.toNat ++ line.rest) := by
    rw [StatLine.behind, List.dropWhile_cons_of_pos (by decide),
      List.dropWhile_cons_of_neg (by simp [line.state_solid])]
  have parent : ((line.state :: 32 :: (decimal line.ppid.toNat ++ line.rest)).dropWhile
      fun byte => !isSpace byte).dropWhile isSpace = decimal line.ppid.toNat ++ line.rest := by
    rw [List.dropWhile_cons_of_pos (by simp [line.state_solid]),
      List.dropWhile_cons_of_neg (by decide), List.dropWhile_cons_of_pos (by decide), digits,
      List.cons_append, List.dropWhile_cons_of_neg (by simp [solid])]
  have filled : decimal line.ppid.toNat ++ line.rest ≠ [] := by simp [digits]
  rw [parseBehind, letter]
  dsimp only
  rw [parent, if_neg filled, atoiUnsigned_decimal line.ppid ends]

/-- The first opening and the last closing parenthesis are those around the name. -/
theorem StatLine.parentheses (line : StatLine) :
    line.text.idxOf? 40 = some ((decimal line.pid.toNat).length + 1) ∧
      strrchr 41 line.text =
        some ((decimal line.pid.toNat).length + 1 + (line.comm.length + 1)) := by
  have number : (40 : UInt8) ∉ decimal line.pid.toNat ++ [32] := by
    rw [List.mem_append, not_or]
    exact ⟨decimal_notMem rfl _, by decide⟩
  have later : (41 : UInt8) ∉ line.behind := by
    have open_ := line.later_open
    simp only [List.mem_cons, not_or] at open_
    simp only [StatLine.behind, List.mem_cons, List.mem_append, not_or]
    exact ⟨by decide, open_.1, by decide, decimal_notMem rfl _, open_.2⟩
  constructor
  · have first := idxOf?_front number (line.comm ++ 41 :: line.behind)
    rw [List.append_assoc, List.singleton_append, List.length_append, List.length_singleton] at first
    exact first
  · have last := strrchr_back later (decimal line.pid.toNat ++ 32 :: 40 :: line.comm)
    rw [List.append_assoc, List.cons_append, List.cons_append, List.length_append,
      List.length_cons, List.length_cons] at last
    rw [StatLine.text, last]
    congr 1
    omega

/-- `parse_stat` recovers the number of the process, its name as far as the field has room, its
state and the number of its parent, whatever the name looks like. -/
theorem parseStat_recovers (line : StatLine) (info : ProcessInfo) :
    parseStat line.text info =
      { info with
        pid := line.pid
        comm := Field.copy line.comm
        state := mapState line.state
        ppid := line.ppid } := by
  obtain ⟨opening, closing⟩ := line.parentheses
  have name : commBetween line.text (some ((decimal line.pid.toNat).length + 1))
      (some ((decimal line.pid.toNat).length + 1 + (line.comm.length + 1))) = line.comm := by
    have front : line.text =
        (decimal line.pid.toNat ++ [32, 40]) ++ (line.comm ++ 41 :: line.behind) := by
      simp [StatLine.text]
    have width : (decimal line.pid.toNat).length + 1 + (line.comm.length + 1) -
        ((decimal line.pid.toNat).length + 1) - 1 = line.comm.length := by omega
    rw [commBetween, if_pos (by omega), width, front, List.drop_left' (by simp), List.take_left]
  have tail : line.text.drop
      ((decimal line.pid.toNat).length + 1 + (line.comm.length + 1) + 1) = line.behind := by
    have front : line.text =
        (decimal line.pid.toNat ++ 32 :: 40 :: (line.comm ++ [41])) ++ line.behind := by
      simp [StatLine.text]
    rw [front]
    apply List.drop_left'
    simp only [List.length_append, List.length_cons, List.length_nil]
    omega
  have number : atoiUnsigned line.text = line.pid :=
    atoiUnsigned_decimal line.pid (by simp [isDigit])
  simp only [parseStat, opening, Option.bind_some, closing, Option.map_some, Option.getD_some,
    tail, name, number, Option.isSome_some, if_true, parseBehind_behind]

/-- A process whose name looks like the rest of a line. -/
def imitation : StatLine where
  pid := 4242
  comm := lit "a) R 7 (b"
  comm_plain := by decide +kernel
  state := 83
  state_solid := by decide
  ppid := 1
  rest := lit " 4242 4242 0 -1 4194560\n"
  rest_start := by decide +kernel
  later_plain := by decide +kernel
  later_open := by decide +kernel

/-- The name is not taken for the fields that it imitates. -/
theorem parseStat_recovers_imitation :
    imitation.text = lit "4242 (a) R 7 (b) S 1 4242 4242 0 -1 4194560\n" ∧
      parseStat imitation.text .zero =
        { ProcessInfo.zero with
          pid := 4242
          comm := Field.copy (lit "a) R 7 (b")
          state := .interruptible
          ppid := 1 } :=
  ⟨by decide +kernel, parseStat_recovers imitation .zero⟩

/-! ## The record of a process -/

/-- A line is its first four fields and the others. -/
theorem StatLine.text_eq (line : StatLine) : line.text = line.front ++ line.rest := by
  simp [StatLine.text, StatLine.front, StatLine.behind]

/-- The front of a line is a line when it has the first four fields. -/
theorem StatLine.text_cut (line : StatLine) (room : Nat) (shown : line.front.length ≤ room) :
    (line.cut (room - line.front.length)).text = line.text.take room := by
  rw [text_eq, text_eq, List.take_append, List.take_of_length_le shown]
  rfl

/-- A line has no zero byte. -/
theorem StatLine.text_plain (line : StatLine) : (0 : UInt8) ∉ line.text := by
  have digits (value : Nat) : (0 : UInt8) ∉ decimal value := decimal_notMem rfl value
  have later := line.later_plain
  simp only [List.mem_cons, not_or] at later
  simp only [StatLine.text, StatLine.behind, List.mem_append, List.mem_cons, not_or]
  exact ⟨digits _, by decide, by decide, line.comm_plain.1, by decide, by decide, later.1,
    by decide, digits _, later.2⟩

/-- What is filled in behind the line leaves its fields as they are. -/
theorem parseStatm_fields (proc : ProcFiles) (pid : Int) (info : ProcessInfo) :
    (parseStatm proc pid info).pid = info.pid ∧ (parseStatm proc pid info).comm = info.comm ∧
      (parseStatm proc pid info).state = info.state ∧
      (parseStatm proc pid info).ppid = info.ppid := by
  rw [parseStatm]
  split <;> exact ⟨rfl, rfl, rfl, rfl⟩

/-- `fill_info` recovers the same from the file of a process whose first four fields fit its
buffer. -/
theorem fillInfo_recovers {proc : ProcFiles} {pid : Int} (line : StatLine) {fields : CString}
    (there : proc.files (procPath pid "stat") = some line.text)
    (ended : line.rest = fields ++ [newline]) (plain : newline ∉ fields)
    (shown : line.front.length < 1024) :
    (fillInfo proc pid).2 = 0 ∧ (fillInfo proc pid).1.pid = line.pid ∧
      (fillInfo proc pid).1.comm = Field.copy line.comm ∧
      (fillInfo proc pid).1.state = mapState line.state ∧
      (fillInfo proc pid).1.ppid = line.ppid := by
  have body : newline ∉ line.front ++ fields := by
    have digits (value : Nat) : newline ∉ decimal value := decimal_notMem rfl value
    have letter : newline ≠ line.state := fun same => by
      have solid := line.state_solid
      rw [← same] at solid
      cases solid
    simp only [StatLine.front, List.mem_append, List.mem_cons, not_or]
    exact ⟨⟨digits _, by decide, by decide, line.comm_plain.2, by decide, by decide, letter,
      by decide, digits _⟩, plain⟩
  have whole : line.text = (line.front ++ fields) ++ [newline] := by
    rw [line.text_eq, ended, List.append_assoc]
  obtain ⟨others, read⟩ := fgetsLines_front 1024 body (by decide)
  rw [← whole] at read
  have seen := line.text_cut 1023 (Nat.le_of_lt_succ shown)
  have clean := bufferText_eq (line.cut (1023 - line.front.length)).text_plain
  have lines : procLines proc pid "stat" 1024 =
      some ((line.cut (1023 - line.front.length)).text :: others.map bufferText) := by
    rw [procLines, there, Option.map_some, read, List.map_cons, ← seen, clean]
  have fields_ := parseStatm_fields proc pid
    (parseStat (line.cut (1023 - line.front.length)).text
      { ProcessInfo.zero with pid := UInt32.ofInt pid, tgid := UInt32.ofInt pid })
  rw [parseStat_recovers] at fields_
  rw [fillInfo, lines]
  dsimp only
  rw [parseStat_recovers]
  exact ⟨rfl, fields_⟩

end HwrunOs.Pmp
