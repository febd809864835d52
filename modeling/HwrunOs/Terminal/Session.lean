import HwrunOs.Library.Bytes
import HwrunOs.Library.Runs
import Mathlib.Data.List.AList

/-!
# Terminal sessions

A session is a pseudo terminal and the process behind it. The caller is given a copy of the
session, with the number of its master descriptor and the pid, and makes more copies by assignment
and by listing the sessions; the registry keeps one of its own. The system gives out descriptor
numbers and pids, any that is free, to sessions, to the other components of this program and to
other programs.
-/

namespace HwrunOs.Terminal

open HwrunOs.Bytes HwrunOs.Runs

/-! ## Error codes -/

/-- `-ENOENT`. -/
def enoent : Int := -2
/-- `-ENOMEM`. -/
def enomem : Int := -12
/-- `-EINVAL`. -/
def einval : Int := -22

/-! ## Sessions and the system -/

/-- `hw_terminal_state_t`. -/
inductive State where
  /-- Created. -/
  | created
  /-- Active. -/
  | active
  /-- Closed. -/
  | closed
  /-- In error. -/
  | error
deriving DecidableEq

/-- `hw_terminal_session_t`. -/
structure Session where
  /-- Its id. -/
  id : Field 64
  /-- The columns. -/
  cols : UInt32
  /-- The rows. -/
  rows : UInt32
  /-- The number of the master descriptor; -1 in a copy that was closed. -/
  masterFd : Int
  /-- The pid of its process. -/
  pid : Nat
  /-- Its state. -/
  state : State
  /-- The path of the slave. -/
  slavePath : Field 64
  /-- Which session it is a copy of. The code does not store it. -/
  number : Nat
deriving DecidableEq

/-- A process that was not waited for. -/
structure Process where
  /-- The session it was spawned for; none for one that another component or program started. -/
  session : Option Nat
  /-- This program can wait for it. -/
  child : Bool
  /-- It ended. -/
  ended : Bool
deriving DecidableEq

/-- What a call of `term_close` applied a system call to. -/
structure Reach where
  /-- The session of the copy that was closed. -/
  number : Nat
  /-- The session whose descriptor or process it was, none within for one that is no session's;
  none when nothing had the number. -/
  owner : Option (Option Nat)
deriving DecidableEq

/-- The registry, the copies of the callers and the system. -/
structure World where
  /-- `g_sessions`, latest first. -/
  sessions : List Session
  /-- `g_seq`. -/
  seq : UInt64
  /-- The copies that callers hold. -/
  handles : List Session
  /-- The open descriptors, each with the session it is the master of, if any. -/
  descriptors : AList fun _ : Nat => Option Nat
  /-- The processes by pid. -/
  processes : AList fun _ : Nat => Process
  /-- How many sessions there were. -/
  spawned : Nat
  /-- What `term_close` called `close` for. -/
  closes : List Reach
  /-- What `term_close` called `kill` for. -/
  signals : List Reach
  /-- The sessions whose process was waited for. -/
  reaped : List Nat

/-- At the start there is nothing. -/
def World.start : World := ⟨[], 0, [], ∅, ∅, 0, [], [], []⟩

/-- Whose process has a pid. -/
def World.processOwner (world : World) (pid : Nat) : Option (Option Nat) :=
  (world.processes.lookup pid).map Process.session

/-- The sessions for whose master `close` was called. -/
def World.closed (world : World) : List Nat := world.closes.map Reach.number

/-! ## System calls -/

/-- A number that is not taken: the one the system would choose, or one above all. -/
def freeNumber (least : Nat) (taken : List Nat) (choice : Nat) : Nat :=
  if least ≤ choice ∧ choice ∉ taken then choice else taken.foldr max least + 1

/-- `kill`, on behalf of a session. -/
def World.kill (world : World) (number pid : Nat) : World :=
  { world with signals := ⟨number, world.processOwner pid⟩ :: world.signals }

/-- `close`, on behalf of a session. -/
def World.closeFd (world : World) (number fd : Nat) : World :=
  { world with
    descriptors := world.descriptors.erase fd
    closes := ⟨number, world.descriptors.lookup fd⟩ :: world.closes }

/-- A process ends. -/
def World.ends (world : World) (pid : Nat) : World :=
  match world.processes.lookup pid with
  | some process =>
    { world with processes := world.processes.insert pid { process with ended := true } }
  | none => world

/-- A process that ended is waited for by its parent. -/
def World.collect (world : World) (pid : Nat) : World :=
  match world.processes.lookup pid with
  | some process =>
    if process.ended then
      { world with
        processes := world.processes.erase pid
        reaped := process.session.toList ++ world.reaped }
    else world
  | none => world

/-- `waitpid(pid, NULL, WNOHANG)`. -/
def World.waitpid (world : World) (pid : Nat) : World × Int :=
  match world.processes.lookup pid with
  | some process =>
    if process.child then
      if process.ended then (world.collect pid, pid) else (world, 0)
    else (world, -1)
  | none => (world, -1)

/-! ## Calls -/

/-- `find_node`. -/
def findNode (sessions : List Session) (id : Field 64) : Option Session :=
  sessions.find? fun node => node.id == id

/-- `generate_id` for a number: it is printed in six digits at least. -/
def generateId (seq : UInt64) : Field 64 :=
  Bytes.Field.copy (lit "term-" ++ (decimal seq.toNat).leftpad 6 48)

/-- `hw_terminal_spawn_t`, without the environment. -/
structure Spawn where
  /-- The program. -/
  cmd : Option CString
  /-- Its arguments. -/
  argv : Option (List CString)
  /-- The columns; 80 for zero. -/
  cols : UInt32
  /-- The rows; 24 for zero. -/
  rows : UInt32

/-- The program to run. -/
def Spawn.program (cfg : Spawn) : Option CString :=
  match cfg.argv with
  | some argv => argv.head?
  | none => some (cfg.cmd.getD (lit "/bin/sh"))

/-- How the system answers a spawn: each call with its `errno` when it fails. -/
structure Answers where
  /-- `posix_openpt`, with the number it would choose. -/
  openpt : Except Nat Nat
  /-- `grantpt`. -/
  grantpt : Except Nat Unit
  /-- `unlockpt`. -/
  unlockpt : Except Nat Unit
  /-- `ptsname`. -/
  ptsname : Except Nat CString
  /-- `fork`, with the pid it would choose. -/
  fork : Except Nat Nat
  /-- There is memory. -/
  memory : Bool

/-- The calls between the opening of the master and `fork`. -/
def Answers.slave (answers : Answers) : Except Nat CString := do
  answers.grantpt
  answers.unlockpt
  answers.ptsname

/-- `term_spawn`. -/
def termSpawn (world : World) (cfg : Option Spawn) (out : Bool) (answers : Answers) :
    World × Except Int Session :=
  match cfg with
  | none => (world, .error einval)
  | some cfg =>
    if out = false ∨ cfg.program.getD [] = [] then (world, .error einval)
    else
      match answers.openpt with
      | .error errno => (world, .error (-errno))
      | .ok choice =>
        let master := freeNumber 0 world.descriptors.keys choice
        let descriptors := world.descriptors.insert master (some world.spawned)
        match answers.slave, answers.fork with
        | .error errno, _ | _, .error errno =>
          -- The master is closed again.
          ({ world with descriptors := descriptors.erase master }, .error (-errno))
        | .ok slave, .ok choice =>
          let pid := freeNumber 1 world.processes.keys choice
          let processes := world.processes.insert pid ⟨some world.spawned, true, false⟩
          if answers.memory then
            let session : Session :=
              { id := generateId (world.seq + 1)
                cols := if cfg.cols = 0 then 80 else cfg.cols
                rows := if cfg.rows = 0 then 24 else cfg.rows
                masterFd := master, pid := pid, state := .active
                slavePath := Bytes.Field.copy slave, number := world.spawned }
            ({ world with
                sessions := session :: world.sessions
                seq := world.seq + 1
                descriptors := descriptors
                processes := processes
                spawned := world.spawned + 1 }, .ok session)
          else
            -- The process is killed and waited for, and the master is closed.
            ({ world with
                descriptors := descriptors.erase master
                processes := processes.erase pid }, .error enomem)

/-- `term_close`; `dies` tells whether the process is gone when it is waited for. -/
def termClose (world : World) (s : Option Session) (dies : Bool) :
    World × Option Session × Int :=
  match s with
  | none => (world, none, einval)
  | some s =>
    let signalled :=
      if 0 < s.pid then
        -- `SIGHUP` and `SIGTERM`
        let killed := (world.kill s.number s.pid).kill s.number s.pid
        ((if dies then killed.ends s.pid else killed).waitpid s.pid).1
      else world
    let closed := if 0 ≤ s.masterFd then signalled.closeFd s.number s.masterFd.toNat else signalled
    ({ closed with sessions := closed.sessions.eraseP fun node => node.id == s.id },
      some { s with
        masterFd := if 0 ≤ s.masterFd then -1 else s.masterFd
        state := .closed }, 0)

/-- `term_list_sessions`: the copies that fit, and how many sessions there are. -/
def termListSessions (world : World) (out : Bool) (cap : Int) (count : Bool) :
    Except Int (List Session × Nat) :=
  if count = false then .error einval
  else .ok (if out then world.sessions.take cap.toNat else [], world.sessions.length)

/-- `hw_terminal_status_t`. -/
structure Status where
  /-- The state. -/
  state : State
  /-- The columns. -/
  cols : UInt32
  /-- The rows. -/
  rows : UInt32
  /-- The pid. -/
  pid : Nat
  /-- The process runs. -/
  running : Bool
deriving DecidableEq

/-- `term_status`. -/
def termStatus (world : World) (s : Option Session) (st : Bool) : World × Except Int Status :=
  match s with
  | none => (world, .error einval)
  | some s =>
    if st = false then (world, .error einval)
    else
      match findNode world.sessions s.id with
      | none => (world, .error enoent)
      | some node =>
        if 0 < node.pid then
          let (waited, rc) := world.waitpid node.pid
          (waited, .ok ⟨node.state, node.cols, node.rows, node.pid, rc == 0⟩)
        else (world, .ok ⟨node.state, node.cols, node.rows, node.pid, false⟩)

/-! ## Runs -/

/-- A call, or something that another component, another program or the system does. -/
inductive Action where
  /-- `term_spawn`; the caller keeps the copy it is given. -/
  | spawn (cfg : Option Spawn) (out : Bool) (answers : Answers)
  /-- `term_list_sessions`; the caller keeps the copies. -/
  | list (out : Bool) (cap : Int) (count : Bool)
  /-- A copy is assigned. -/
  | copy (handle : Nat)
  /-- `term_status` of a copy; a null pointer if there is none. -/
  | status (handle : Nat) (st : Bool)
  /-- `term_close` of a copy. -/
  | close (handle : Nat) (dies : Bool)
  /-- Another component opens a descriptor. -/
  | opens (choice : Nat)
  /-- It closes one that it opened. -/
  | shuts (fd : Nat)
  /-- A process is started that is no session's, by another component or by another program. -/
  | starts (choice : Nat) (child : Bool)
  /-- A process ends. -/
  | ends (pid : Nat)
  /-- A process that ended is waited for by another component or by another program. -/
  | waits (pid : Nat)

/-- One action. -/
def step (world : World) : Action → World
  | .spawn cfg out answers =>
    let (spawned, result) := termSpawn world cfg out answers
    match result with
    | .ok session => { spawned with handles := world.handles ++ [session] }
    | .error _ => spawned
  | .list out cap count =>
    match termListSessions world out cap count with
    | .ok (copies, _) => { world with handles := world.handles ++ copies }
    | .error _ => world
  | .copy handle => { world with handles := world.handles ++ world.handles[handle]?.toList }
  | .status handle st => (termStatus world world.handles[handle]? st).1
  | .close handle dies =>
    let (closed, s, _) := termClose world world.handles[handle]? dies
    match s with
    | some s => { closed with handles := world.handles.set handle s }
    | none => closed
  | .opens choice =>
    let fd := freeNumber 0 world.descriptors.keys choice
    { world with descriptors := world.descriptors.insert fd none }
  | .shuts fd =>
    if world.descriptors.lookup fd = some none then
      { world with descriptors := world.descriptors.erase fd }
    else world
  | .starts choice child =>
    let pid := freeNumber 1 world.processes.keys choice
    { world with processes := world.processes.insert pid ⟨none, child, false⟩ }
  | .ends pid => world.ends pid
  | .waits pid => world.collect pid

end HwrunOs.Terminal
