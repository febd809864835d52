import HwrunOs.Library.Bytes
import HwrunOs.Library.Lookup
import HwrunOs.Library.Runs

/-!
# Tasks and their processes

A task is an entry for a child process. What became of the process is learnt lazily: each status
query waits for one child that ended, whichever the system picks, and writes the outcome into the
first entry with its pid. The system decides which pids are given out, among those that no child
has that is not waited for; and children that are no tasks end and are waited for like the others.
-/

namespace HwrunOs.Pmp

open HwrunOs.Bytes HwrunOs.Lookup HwrunOs.Runs

/-! ## The system -/

/-- How a process ended. -/
inductive WaitStatus where
  /-- It called `exit`. -/
  | exited (code : Nat)
  /-- A signal killed it. -/
  | signaled (signal : Nat)
deriving DecidableEq

/-- A child that was not waited for. -/
structure Child where
  /-- Its pid. -/
  pid : Nat
  /-- How it ended; none while it runs. -/
  ended : Option WaitStatus
  /-- The number of the task it was started for. The system does not know it. -/
  task : Option Nat
deriving DecidableEq

/-- A pid that no child has: the one the system would choose, or one above all. -/
def freePid (children : List Child) (choice : Nat) : Nat :=
  if choice = 0 ∨ choice ∈ children.map Child.pid then
    (children.map Child.pid).foldr max 0 + 1
  else choice

/-- The children that `waitpid` can return. -/
def zombies (children : List Child) : List (Child × WaitStatus) :=
  children.filterMap fun child => child.ended.map fun status => (child, status)

/-- `waitpid(-1, &st, WNOHANG)`: the system picks one child that ended, if there is one. -/
def waitAny (children : List Child) (choice : Nat) : Option (Child × WaitStatus) :=
  (zombies children)[choice]?.or (zombies children).head?

/-! ## The table -/

/-- `pmp_task_status_t`. -/
inductive TaskStatus where
  /-- Submitted. -/
  | pending
  /-- Running. -/
  | running
  /-- It ended with zero. -/
  | finished
  /-- It ended otherwise. -/
  | failed
  /-- It was cancelled. -/
  | cancelled
  /-- No such task. -/
  | unknown
deriving DecidableEq

/-- `pmp_task_entry_t`. -/
structure TaskEntry where
  /-- Its id. -/
  id : UInt64
  /-- Its name. -/
  name : Field 64
  /-- The path of the program. -/
  path : Field 256
  /-- The pid of its process. -/
  pid : Nat
  /-- Its state. -/
  state : TaskStatus
  /-- What its process left. -/
  exitStatus : Nat
  /-- Which submission it is of. The code does not store it. -/
  number : Nat
deriving DecidableEq

/-- The task table and the children of the process. -/
structure World where
  /-- The entries, latest first. -/
  table : List TaskEntry
  /-- The last id. -/
  seq : UInt64
  /-- The children. -/
  children : List Child
  /-- How the processes of tasks ended that a status query waited for, by number. -/
  collected : List (Nat × WaitStatus)

/-- At the start there is nothing. -/
def World.start : World := ⟨[], 0, [], []⟩

/-- The state of a task after its process ended. -/
def WaitStatus.state : WaitStatus → TaskStatus
  | .exited code => if code = 0 then .finished else .failed
  | .signaled _ => .failed

/-- What is recorded of it. -/
def WaitStatus.exitStatus : WaitStatus → Nat
  | .exited code => code
  | .signaled signal => signal

/-- The outcome written into an entry. -/
def TaskEntry.record (status : WaitStatus) (entry : TaskEntry) : TaskEntry :=
  { entry with state := status.state, exitStatus := status.exitStatus }

/-- `task_find`. -/
def taskFind (table : List TaskEntry) (id : UInt64) : Option TaskEntry :=
  table.find? fun entry => entry.id == id

/-- `task_reap`: one child is waited for, and the first entry with its pid is written. -/
def taskReap (world : World) (choice : Nat) : World :=
  match waitAny world.children choice with
  | none => world
  | some (child, status) =>
    { world with
      table := updateFirst (fun entry => entry.pid == child.pid) (.record status) world.table
      children := world.children.eraseP fun other => other.pid == child.pid
      collected := match child.task with
        | some number => (number, status) :: world.collected
        | none => world.collected }

/-- `pmp_task_submit`; `fork` is its outcome, and the code it returns on failure. -/
def pmpTaskSubmit (world : World) (name path : Option CString) (fork : Except Int Nat)
    (memory : Bool) : World × Except Int UInt64 :=
  match path with
  | none => (world, .error (-1))
  | some path =>
    match fork with
    | .error rc => (world, .error rc)
    | .ok choice =>
      let pid := freePid world.children choice
      if memory then
        let number := world.table.length
        let entry : TaskEntry :=
          ⟨world.seq + 1, Field.copy (name.getD path), Field.copy path, pid, .running, 0, number⟩
        ({ world with
            table := entry :: world.table
            seq := world.seq + 1
            children := ⟨pid, none, some number⟩ :: world.children },
          .ok (world.seq + 1))
      else ({ world with children := ⟨pid, none, none⟩ :: world.children }, .error (-3))

/-- `pmp_task_cancel`. What its signal does is that the process ends, then or later. -/
def pmpTaskCancel (world : World) (id : UInt64) : World × Int :=
  match taskFind world.table id with
  | none => (world, -2)
  | some entry =>
    if entry.state ≠ .running ∧ entry.state ≠ .pending then (world, -1)
    else
      ({ world with
          table := updateFirst (fun entry => entry.id == id)
            (fun entry => { entry with state := .cancelled }) world.table }, 0)

/-- `pmp_task_status`: the entry that is reported is the one found before. -/
def pmpTaskStatus (world : World) (id : UInt64) (choice : Nat) :
    World × Except Int TaskEntry :=
  match taskFind world.table id with
  | none => (world, .error (-2))
  | some _ =>
    let reaped := taskReap world choice
    match taskFind reaped.table id with
    | none => (reaped, .error (-2))
    | some entry => (reaped, .ok entry)

/-! ## Runs -/

/-- A call, or something the system or another component does. -/
inductive Action where
  /-- `pmp_task_submit`. -/
  | submit (name path : Option CString) (fork : Except Int Nat) (memory : Bool)
  /-- `pmp_task_cancel`. -/
  | cancel (id : UInt64)
  /-- `pmp_task_status`, with the choice of `waitpid`. -/
  | status (id : UInt64) (choice : Nat)
  /-- A child ends. -/
  | ends (pid : Nat) (status : WaitStatus)
  /-- `pmp_spawn` of another component. -/
  | spawn (choice : Nat)
  /-- `pmp_wait` of another component for a child that ended. -/
  | wait (pid : Nat)

/-- A running child ends. -/
def Child.finish (pid : Nat) (status : WaitStatus) (child : Child) : Child :=
  if child.pid = pid ∧ child.ended = none then { child with ended := some status } else child

/-- One action. -/
def step (world : World) : Action → World
  | .submit name path fork memory => (pmpTaskSubmit world name path fork memory).1
  | .cancel id => (pmpTaskCancel world id).1
  | .status id choice => (pmpTaskStatus world id choice).1
  | .ends pid status => { world with children := world.children.map (.finish pid status) }
  | .spawn choice =>
    { world with children := ⟨freePid world.children choice, none, none⟩ :: world.children }
  | .wait pid =>
    { world with
      children := world.children.filter fun child => !(child.pid == pid && child.ended.isSome) }

/-! ## What the actions do -/

/-- A submission leaves the world, adds a child that is no task, or adds a child and its entry. -/
theorem pmpTaskSubmit_cases (world : World) (name path : Option CString)
    (fork : Except Int Nat) (memory : Bool) :
    (pmpTaskSubmit world name path fork memory).1 = world ∨
    ∃ choice, (pmpTaskSubmit world name path fork memory).1 = step world (.spawn choice) ∨
      ∃ entry : TaskEntry, entry.number = world.table.length ∧
        entry.pid = freePid world.children choice ∧ entry.state = .running ∧
        (pmpTaskSubmit world name path fork memory).1 =
          { world with
            table := entry :: world.table
            seq := world.seq + 1
            children := ⟨entry.pid, none, some entry.number⟩ :: world.children } := by
  unfold pmpTaskSubmit
  cases path with
  | none => exact .inl rfl
  | some path =>
    cases fork with
    | error rc => exact .inl rfl
    | ok choice =>
      right
      cases memory with
      | true => exact ⟨choice, .inr ⟨_, rfl, rfl, rfl, rfl⟩⟩
      | false => exact ⟨choice, .inl rfl⟩

/-- A status query does to the world what waiting for a child does. -/
theorem pmpTaskStatus_world (world : World) (id : UInt64) (choice : Nat) :
    (pmpTaskStatus world id choice).1 =
      if (taskFind world.table id).isSome then taskReap world choice else world := by
  unfold pmpTaskStatus
  cases taskFind world.table id with
  | none => rfl
  | some entry =>
    dsimp only
    split <;> rfl

end HwrunOs.Pmp
