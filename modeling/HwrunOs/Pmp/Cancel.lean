import HwrunOs.Library.Leases
import HwrunOs.Pmp.Report

/-!
# Whom a cancellation signals

A cancellation signals the pid in the entry of the task. The pid is that of the task's process until
somebody waits for it, and a wait does not ask the table: `pmp_wait` leaves the entry as it is, and
so does a status query that finds a later entry with the pid. From then on the system may give the
pid to the process of another task, to another child or to another program.
-/

namespace HwrunOs.Pmp

open HwrunOs.Bytes HwrunOs.Leases HwrunOs.Lookup HwrunOs.Runs

/-! ## Calls -/

/-- The entry whose pid `pmp_task_cancel` calls `kill` for. -/
def cancelTarget (world : World) (id : UInt64) : Option TaskEntry :=
  match taskFind world.table id with
  | none => none
  | some entry =>
    if entry.state ≠ .running ∧ entry.state ≠ .pending then none
    else if entry.pid ≠ 0 then some entry else none

/-- What `waitpid` returns: the child with a positive pid if it ended, and otherwise one that the
system picks, if any. -/
def waitPid (children : List Child) (pid : Int) (choice : Option Nat) :
    Option (Child × WaitStatus) :=
  if 0 < pid then (zombies children).find? fun zombie => (zombie.1.pid : Int) == pid
  else choice.bind fun choice => (zombies children)[choice]?

/-- `pmp_wait`: the pid and the status of the child that is waited for. -/
def pmpWait (world : World) (pid : Int) (choice : Option Nat) :
    World × Option (Nat × WaitStatus) :=
  match waitPid world.children pid choice with
  | none => (world, none)
  | some (child, status) =>
    ({ world with children := world.children.eraseP fun other => other.pid == child.pid },
      some (child.pid, status))

/-! ## The system -/

/-- A signal of `pmp_task_cancel`. -/
structure Sent where
  /-- The task that was cancelled. -/
  number : Nat
  /-- The task whose process had the pid, none within for a process of no task; none when no process
  had it. -/
  owner : Option (Option Nat)
deriving DecidableEq

/-- The tasks with the other processes of the system. -/
structure Host where
  /-- The tasks and the children. -/
  world : World
  /-- The pids of processes that are no children. -/
  strangers : List Nat
  /-- The tasks whose process was waited for. -/
  waited : List Nat
  /-- What cancellations signalled. -/
  sent : List Sent

/-- At the start there is nothing. -/
def Host.start : Host := ⟨.start, [], [], []⟩

/-- The pids in use. -/
def Host.pids (host : Host) : List Nat := host.world.children.map Child.pid ++ host.strangers

/-- A pid that no process has: the one the system would choose, or one above all. -/
def Host.freePid (host : Host) (choice : Nat) : Nat :=
  if choice = 0 ∨ choice ∈ host.pids then host.pids.foldr max 0 + 1 else choice

/-- Whose process has a pid. -/
def Host.holder (host : Host) (pid : Nat) : Option (Option Nat) :=
  match host.world.children.find? fun child => child.pid == pid with
  | some child => some child.task
  | none => if pid ∈ host.strangers then some none else none

/-- The tasks whose process a wait was for. -/
def Host.collect (host : Host) (waited : Option (Child × WaitStatus)) : List Nat :=
  match waited with
  | some (child, _) => child.task.toList ++ host.waited
  | none => host.waited

/-- A call, or something that happens to the processes. -/
inductive Event where
  /-- `pmp_task_submit`. -/
  | submit (name path : Option CString) (fork : Except Int Nat) (memory : Bool)
  /-- `pmp_task_cancel`. -/
  | cancel (id : UInt64)
  /-- `pmp_task_status`, with the choice of `waitpid`. -/
  | status (id : UInt64) (choice : Nat)
  /-- `pmp_wait`, with the choice of `waitpid`. -/
  | wait (pid : Int) (choice : Option Nat)
  /-- A child ends. -/
  | ends (pid : Nat) (status : WaitStatus)
  /-- `pmp_spawn` of another component. -/
  | spawn (choice : Nat)
  /-- A process of another program starts. -/
  | arrives (choice : Nat)
  /-- It ends and is waited for. -/
  | leaves (pid : Nat)

/-- One event. -/
def Host.step (host : Host) : Event → Host
  | .submit name path fork memory =>
    { host with world := Pmp.step host.world (.submit name path (fork.map host.freePid) memory) }
  | .cancel id =>
    { host with
      world := Pmp.step host.world (.cancel id)
      sent := match cancelTarget host.world id with
        | some entry => ⟨entry.number, host.holder entry.pid⟩ :: host.sent
        | none => host.sent }
  | .status id choice =>
    { host with
      world := Pmp.step host.world (.status id choice)
      waited := if (taskFind host.world.table id).isSome then
        host.collect (waitAny host.world.children choice) else host.waited }
  | .wait pid choice =>
    { host with
      world := (pmpWait host.world pid choice).1
      waited := host.collect (waitPid host.world.children pid choice) }
  | .ends pid status => { host with world := Pmp.step host.world (.ends pid status) }
  | .spawn choice => { host with world := Pmp.step host.world (.spawn (host.freePid choice)) }
  | .arrives choice => { host with strangers := host.freePid choice :: host.strangers }
  | .leaves pid => { host with strangers := host.strangers.filter (· ≠ pid) }

/-! ## The claim and its conditions -/

/-- Every signal went to the own process of the task. -/
def SignalsOwn (host : Host) : Prop :=
  ∀ signal ∈ host.sent, signal.owner = some (some signal.number)

/-- No signal went to another process. -/
def SignalsNoOther (host : Host) : Prop :=
  ∀ signal ∈ host.sent, signal.owner = none ∨ signal.owner = some (some signal.number)

/-- No task is cancelled whose process was waited for. -/
def CancelsLive (host : Host) : Event → Prop
  | .cancel id => ∀ entry, cancelTarget host.world id = some entry → entry.number ∉ host.waited
  | _ => True

/-- When such a task is cancelled, no process has its pid. -/
def CancelsUnused (host : Host) : Event → Prop
  | .cancel id => ∀ entry, cancelTarget host.world id = some entry → entry.number ∈ host.waited →
    host.holder entry.pid = none
  | _ => True

instance (host : Host) : Decidable (SignalsOwn host) :=
  inferInstanceAs (Decidable (∀ signal ∈ host.sent, _))

instance (host : Host) : Decidable (SignalsNoOther host) :=
  inferInstanceAs (Decidable (∀ signal ∈ host.sent, _))

/-! ## Pids -/

/-- A pid that is given out is not in use. -/
theorem Host.freePid_free (host : Host) (choice : Nat) : host.freePid choice ∉ host.pids := by
  unfold Host.freePid
  split
  · intro listed
    exact absurd (List.le_max_of_le' 0 listed le_rfl) (Nat.not_succ_le_self _)
  · rename_i free
    exact (not_or.mp free).2

/-- A pid that no process has is one that no child has. -/
theorem Host.freePid_child (host : Host) (choice : Nat) :
    Pmp.freePid host.world.children (host.freePid choice) = host.freePid choice := by
  have free : host.freePid choice ∉ host.world.children.map Child.pid :=
    fun listed => host.freePid_free choice (List.mem_append_left _ listed)
  have positive : host.freePid choice ≠ 0 := by
    unfold Host.freePid
    split
    · exact Nat.succ_ne_zero _
    · rename_i usable
      exact (not_or.mp usable).1
  rw [Pmp.freePid, if_neg (not_or.mpr ⟨positive, free⟩)]

/-- What an entry says of its task's process. -/
def TaskEntry.note (entry : TaskEntry) : Nat × Nat := (entry.number, entry.pid)

/-- That the entry of a task has a pid. -/
def Noted (world : World) (number pid : Nat) : Prop :=
  ∃ entry ∈ world.table, entry.number = number ∧ entry.pid = pid

/-- Pids are leased to tasks, and the entries are notes of them. -/
structure Placed (host : Host) : Prop where
  /-- No pid is in use twice. -/
  pids : host.pids.Nodup
  /-- A lease ends when the process is waited for. -/
  leased : Leased host.holder host.world.table.length host.waited (Noted host.world)

/-- At the start nothing is leased. -/
theorem placed_start : Placed .start where
  pids := List.nodup_nil
  leased := leased_start.fewer fun _ _ ⟨_, listed, _⟩ => nomatch listed

/-- No process has a pid that is not in use. -/
theorem Host.holder_free {host : Host} {pid : Nat} (free : pid ∉ host.pids) :
    host.holder pid = none := by
  obtain ⟨child, stranger⟩ := not_or.mp (List.mem_append.not.mp free)
  have missing : host.world.children.find? (fun child => child.pid == pid) = none := by
    rw [List.find?_eq_none]
    intro other listed same
    exact child (beq_iff_eq.mp same ▸ List.mem_map_of_mem listed)
  rw [Host.holder, missing]
  exact if_neg stranger

/-- A new child has its pid. -/
theorem Host.holder_cons (host : Host) (child : Child) (table : List TaskEntry) (seq : UInt64)
    (pid : Nat) :
    Host.holder { host with
        world := { host.world with
          table := table
          seq := seq
          children := child :: host.world.children } } pid =
      if pid = child.pid then some child.task else host.holder pid := by
  unfold Host.holder
  by_cases same : pid = child.pid
  · rw [if_pos same, List.find?_cons_of_pos (by simp [same])]
  · rw [if_neg same, List.find?_cons_of_neg (by simpa using fun equal => same equal.symm)]

/-- A task's process is a child. -/
theorem Host.holder_task_iff {host : Host} {pid tenant : Nat} :
    host.holder pid = some (some tenant) ↔
      (host.world.children.find? fun child => child.pid == pid).bind Child.task = some tenant := by
  unfold Host.holder
  cases host.world.children.find? fun child => child.pid == pid with
  | none =>
    constructor
    · intro held
      dsimp only at held
      split at held <;> cases held
    · intro held
      cases held
  | some child => exact Option.some_inj

section Placed

variable {host : Host} (placed : Placed host)
include placed

/-- A child of no task starts. -/
theorem Placed.spawn {pid : Nat} (free : pid ∉ host.pids) :
    Placed { host with
      world := { host.world with children := ⟨pid, none, none⟩ :: host.world.children } } where
  pids := List.nodup_cons.mpr ⟨free, placed.pids⟩
  leased := by
    have holder := host.holder_cons ⟨pid, none, none⟩ host.world.table host.world.seq
    refine placed.leased.other pid ?_ ?_ fun other elsewhere => ?_
    · intro tenant held
      rw [host.holder_free free] at held
      cases held
    · intro tenant held
      rw [holder, if_pos rfl] at held
      cases held
    · rw [holder, if_neg elsewhere]

/-- A task is submitted. -/
theorem Placed.submit {entry : TaskEntry} (number : entry.number = host.world.table.length)
    (free : entry.pid ∉ host.pids) (seq : UInt64) :
    Placed { host with
      world := { host.world with
        table := entry :: host.world.table
        seq := seq
        children := ⟨entry.pid, none, some entry.number⟩ :: host.world.children } } where
  pids := List.nodup_cons.mpr ⟨free, placed.pids⟩
  leased := by
    have holder := host.holder_cons ⟨entry.pid, none, some entry.number⟩
      (entry :: host.world.table) seq
    refine placed.leased.lease (host.holder_free free) ?_ (fun other elsewhere => ?_) ?_
    · rw [holder, if_pos rfl, number]
    · rw [holder, if_neg elsewhere]
    · rintro tenant key ⟨other, listed, rfl, rfl⟩
      rcases List.mem_cons.mp listed with rfl | old
      · exact .inr ⟨number, rfl⟩
      · exact .inl ⟨other, old, rfl, rfl⟩

/-- A child is found under its pid. -/
theorem Placed.find {child : Child} (listed : child ∈ host.world.children) :
    host.world.children.find? (fun other => other.pid == child.pid) = some child := by
  have distinct := (List.nodup_append.mp placed.pids).1
  obtain ⟨first, found⟩ : ∃ first,
      host.world.children.find? (fun other => other.pid == child.pid) = some first :=
    Option.isSome_iff_exists.mp (List.find?_isSome.mpr ⟨child, listed, by simp⟩)
  have matched := List.find?_some found
  have same := List.inj_on_of_nodup_map distinct (List.mem_of_find?_eq_some found) listed
    (beq_iff_eq.mp matched)
  rw [found, same]

/-- A child is waited for. -/
theorem Placed.collect {child : Child} (status : WaitStatus)
    (listed : child ∈ host.world.children) (collected : List (Nat × WaitStatus)) :
    Placed { host with
      world := { host.world with
        children := host.world.children.eraseP fun other => other.pid == child.pid
        collected := collected }
      waited := host.collect (some (child, status)) } := by
  have distinct := (List.nodup_append.mp placed.pids).1
  have found := placed.find listed
  have stranger : child.pid ∉ host.strangers := fun member =>
    (List.nodup_append.mp placed.pids).2.2 _ (List.mem_map_of_mem listed) _ member rfl
  have held : host.holder child.pid = some child.task := by
    rw [Host.holder, found]
  have now : Host.holder { host with
      world := { host.world with
        children := host.world.children.eraseP fun other => other.pid == child.pid
        collected := collected } } child.pid = none := by
    have gone : (host.world.children.eraseP fun other => other.pid == child.pid).find?
        (fun other => other.pid == child.pid) = none := by
      rw [List.find?_eq_none]
      intro other kept same
      exact key_ne_of_mem_eraseP distinct found kept (beq_iff_eq.mp same)
    rw [Host.holder, gone]
    exact if_neg stranger
  have same : ∀ other, other ≠ child.pid → Host.holder { host with
      world := { host.world with
        children := host.world.children.eraseP fun other => other.pid == child.pid
        collected := collected } } other = host.holder other := by
    intro other elsewhere
    have kept : (host.world.children.eraseP fun other => other.pid == child.pid).find?
        (fun child => child.pid == other) =
          host.world.children.find? fun child => child.pid == other := by
      refine find?_eraseP fun item matched => ?_
      rw [beq_iff_eq.mp matched]
      exact beq_eq_false_iff_ne.mpr fun equal => elsewhere equal.symm
    rw [Host.holder, kept]
    rfl
  constructor
  · show (List.map Child.pid (host.world.children.eraseP _) ++ host.strangers).Nodup
    exact ((List.eraseP_sublist.map Child.pid).append_right host.strangers).nodup placed.pids
  · show Leased _ host.world.table.length (child.task.toList ++ host.waited) _
    cases task : child.task with
    | none =>
      refine placed.leased.other child.pid (fun tenant => ?_) (fun tenant => ?_) same
      · rw [held, task]
        exact fun equal => nomatch Option.some.inj equal
      · exact fun equal => nomatch now.symm.trans equal
    | some tenant => exact placed.leased.giveBack (held.trans (congrArg some task)) now same

/-- Entries change their state. -/
theorem Placed.table {table : List TaskEntry}
    (same : table.map TaskEntry.note = host.world.table.map TaskEntry.note) (sent : List Sent) :
    Placed { host with world := { host.world with table := table }, sent := sent } where
  pids := placed.pids
  leased := by
    have length : table.length = host.world.table.length := by
      simpa using congrArg List.length same
    show Leased host.holder table.length host.waited _
    rw [length]
    refine placed.leased.fewer ?_
    rintro tenant key ⟨entry, listed, rfl, rfl⟩
    obtain ⟨before, member, note⟩ := List.mem_map.mp
      (same ▸ List.mem_map_of_mem (f := TaskEntry.note) listed)
    exact ⟨before, member, (Prod.mk.inj note).1, (Prod.mk.inj note).2⟩

/-- A child ends. -/
theorem Placed.ends (pid : Nat) (status : WaitStatus) :
    Placed { host with world := { host.world with
      children := host.world.children.map (.finish pid status) } } := by
  have keeps : ∀ child : Child, (child.finish pid status).pid = child.pid ∧
      (child.finish pid status).task = child.task := by
    intro child
    unfold Child.finish
    split <;> exact ⟨rfl, rfl⟩
  have holder : Host.holder { host with world := { host.world with
      children := host.world.children.map (.finish pid status) } } = host.holder := by
    funext other
    have found : (host.world.children.map (Child.finish pid status)).find?
        (fun child => child.pid == other) =
          (host.world.children.find? fun child => child.pid == other).map
            (Child.finish pid status) := by
      refine find?_map_of_keeps (fun child => ?_) _
      rw [(keeps child).1]
    unfold Host.holder
    rw [found]
    cases host.world.children.find? fun child => child.pid == other with
    | none => rfl
    | some child => exact congrArg some (keeps child).2
  constructor
  · have same : (host.world.children.map (.finish pid status)).map Child.pid =
        host.world.children.map Child.pid := by
      rw [List.map_map]
      exact List.map_congr_left fun child _ => (keeps child).1
    show (List.map Child.pid (host.world.children.map (.finish pid status)) ++ _).Nodup
    rw [same]
    exact placed.pids
  · rw [holder]
    exact placed.leased

/-- A process of another program starts. -/
theorem Placed.arrives {pid : Nat} (free : pid ∉ host.pids) :
    Placed { host with strangers := pid :: host.strangers } where
  pids := by
    show (host.world.children.map Child.pid ++ pid :: host.strangers).Nodup
    exact (List.perm_middle.nodup_iff).mpr (List.nodup_cons.mpr ⟨free, placed.pids⟩)
  leased := placed.leased.others fun tenant key => by
    rw [Host.holder_task_iff, Host.holder_task_iff]

/-- It ends and is waited for. -/
theorem Placed.leaves (pid : Nat) :
    Placed { host with strangers := host.strangers.filter (· ≠ pid) } where
  pids := (List.filter_sublist.append_left _).nodup placed.pids
  leased := placed.leased.others fun tenant key => by
    rw [Host.holder_task_iff, Host.holder_task_iff]

end Placed

/-! ## One event -/

/-- A child that is waited for is there. -/
theorem waitPid_mem {children : List Child} {pid : Int} {choice : Option Nat} {child : Child}
    {status : WaitStatus} (waited : waitPid children pid choice = some (child, status)) :
    child ∈ children := by
  have listed : (child, status) ∈ zombies children := by
    unfold waitPid at waited
    split at waited
    · exact List.mem_of_find?_eq_some waited
    · obtain ⟨index, -, found⟩ := Option.bind_eq_some_iff.mp waited
      exact List.mem_of_getElem? found
  obtain ⟨other, member, ended⟩ := List.mem_filterMap.mp listed
  obtain ⟨_, -, pair⟩ := Option.map_eq_some_iff.mp ended
  exact (Prod.mk.inj pair).1 ▸ member

/-- Whatever happens, pids stay leased. -/
theorem Placed.step {host : Host} (placed : Placed host) (event : Event) :
    Placed (host.step event) := by
  cases event with
  | submit name path fork memory =>
    cases path with
    | none => exact placed
    | some path =>
      cases fork with
      | error rc => exact placed
      | ok choice =>
        have free := host.freePid_free choice
        have pid := host.freePid_child choice
        cases memory with
        | false =>
          have spawned := placed.spawn free
          rw [← pid] at spawned
          exact spawned
        | true =>
          have number : (⟨host.world.seq + 1, Field.copy (name.getD path), Field.copy path,
              host.freePid choice, .running, 0, host.world.table.length⟩ : TaskEntry).number =
                host.world.table.length :=
            rfl
          have submitted := placed.submit number free (host.world.seq + 1)
          rw [← pid] at submitted
          exact submitted
  | cancel id =>
    show Placed { host with world := (pmpTaskCancel host.world id).1, sent := _ }
    unfold pmpTaskCancel
    cases found : taskFind host.world.table id with
    | none => exact placed.table rfl _
    | some entry =>
      dsimp only
      split
      · exact placed.table rfl _
      · refine placed.table (map_updateFirst ?_ _) _
        exact fun _ => rfl
  | status id choice =>
    show Placed { host with
      world := (pmpTaskStatus host.world id choice).1
      waited := if (taskFind host.world.table id).isSome then
        host.collect (waitAny host.world.children choice) else host.waited }
    rw [pmpTaskStatus_world]
    split
    · unfold taskReap
      cases waited : waitAny host.world.children choice with
      | none => exact placed
      | some pair =>
        obtain ⟨child, status⟩ := pair
        have collected := placed.collect status (waitAny_mem waited).1
        refine (collected _).table (map_updateFirst ?_ _) host.sent
        exact fun _ => rfl
    · exact placed
  | wait pid choice =>
    show Placed { host with
      world := (pmpWait host.world pid choice).1
      waited := host.collect (waitPid host.world.children pid choice) }
    unfold pmpWait
    cases found : waitPid host.world.children pid choice with
    | none => exact placed
    | some pair => exact placed.collect pair.2 (waitPid_mem found) host.world.collected
  | ends pid status => exact placed.ends pid status
  | spawn choice =>
    have spawned := placed.spawn (host.freePid_free choice)
    rw [← host.freePid_child choice] at spawned
    exact spawned
  | arrives choice => exact placed.arrives (host.freePid_free choice)
  | leaves pid => exact placed.leaves pid

/-- Only a cancellation signals, and only the pid in its entry. -/
theorem Host.step_sent (host : Host) (event : Event) :
    ((host.step event).sent = host.sent ∧ CancelsLive host event) ∨
    ∃ id entry, event = .cancel id ∧ cancelTarget host.world id = some entry ∧
      (host.step event).sent = ⟨entry.number, host.holder entry.pid⟩ :: host.sent := by
  cases event with
  | cancel id =>
    cases target : cancelTarget host.world id with
    | none =>
      refine .inl ⟨by simp only [Host.step, target], fun entry found => ?_⟩
      rw [target] at found
      cases found
    | some entry => exact .inr ⟨id, entry, rfl, target, by simp only [Host.step, target]⟩
  | _ => exact .inl ⟨rfl, trivial⟩

/-- The entry that is signalled is in the table. -/
theorem cancelTarget_noted {world : World} {id : UInt64} {entry : TaskEntry}
    (target : cancelTarget world id = some entry) : Noted world entry.number entry.pid := by
  unfold cancelTarget at target
  cases found : taskFind world.table id with
  | none =>
    rw [found] at target
    cases target
  | some first =>
    rw [found] at target
    dsimp only at target
    split at target
    · cases target
    split at target
    · obtain rfl := Option.some.inj target
      exact ⟨_, List.mem_of_find?_eq_some found, rfl, rfl⟩
    · cases target

/-- Cancelling only tasks whose process was not waited for is enough. -/
theorem CancelsLive.unused {host : Host} {event : Event} (live : CancelsLive host event) :
    CancelsUnused host event := by
  cases event with
  | cancel id => exact fun entry target waited => absurd waited (live entry target)
  | _ => trivial

/-- One event signals the own process exactly when it cancels no task whose process was waited
for. -/
theorem signalsOwn_step_iff {host : Host} (placed : Placed host) (event : Event) :
    SignalsOwn (host.step event) ↔ SignalsOwn host ∧ CancelsLive host event := by
  rcases host.step_sent event with ⟨same, live⟩ | ⟨id, entry, rfl, target, sent⟩
  · rw [SignalsOwn, same]
    exact (and_iff_left live).symm
  · have own := placed.leased.held_iff (cancelTarget_noted target)
    have live : CancelsLive host (.cancel id) ↔ entry.number ∉ host.waited := by
      simp only [CancelsLive, target, Option.some.injEq, forall_eq']
    rw [SignalsOwn, sent, List.forall_mem_cons, live, and_comm]
    exact and_congr_right' own

/-- It signals no other process exactly when it cancels no such task while a process has its
pid. -/
theorem signalsNoOther_step_iff {host : Host} (placed : Placed host) (event : Event) :
    SignalsNoOther (host.step event) ↔ SignalsNoOther host ∧ CancelsUnused host event := by
  rcases host.step_sent event with ⟨same, live⟩ | ⟨id, entry, rfl, target, sent⟩
  · rw [SignalsNoOther, same]
    exact (and_iff_left live.unused).symm
  · have nobody := placed.leased.nobody_iff (cancelTarget_noted target)
    have unused : CancelsUnused host (.cancel id) ↔
        (entry.number ∈ host.waited → host.holder entry.pid = none) := by
      simp only [CancelsUnused, target, Option.some.injEq, forall_eq']
    rw [SignalsNoOther, sent, List.forall_mem_cons, unused, and_comm]
    exact and_congr_right' nobody

/-! ## Every run -/

/-- A property that every event keeps exactly when it meets a condition holds along the runs whose
events all meet it. -/
theorem signals_iff {good : Host → Prop} {ok : Host → Event → Prop} (initial : good .start)
    (decides : ∀ host event, Placed host → (good (host.step event) ↔ good host ∧ ok host event))
    (events : List Event) :
    AllStates Host.step good .start events ↔ AllSteps Host.step ok .start events := by
  have sound : ∀ host, Placed host ∧ good host → good host := fun host holds => holds.2
  refine allStates_iff_allSteps sound ?_ ?_ ⟨placed_start, initial⟩
    (allSteps_of_forall (fun _ _ => trivial) _ _)
  · rintro host event ⟨placed, holds⟩ met
    exact ⟨placed.step event, (decides host event placed).mpr ⟨holds, met⟩⟩
  · rintro host event ⟨placed, -⟩ - missed holds
    exact missed ((decides host event placed).mp holds).2

/-- In a run of submissions, status queries, cancellations and waits, and of processes that start
and end meanwhile: cancellations signal no other process exactly when no task whose process was
waited for is cancelled while a process has its pid; and they signal nothing but the own process,
not even a free pid, exactly when no task is cancelled whose process was waited for. -/
theorem cancel_signals_iff (events : List Event) :
    (AllStates Host.step SignalsNoOther .start events ↔
      AllSteps Host.step CancelsUnused .start events) ∧
    (AllStates Host.step SignalsOwn .start events ↔
      AllSteps Host.step CancelsLive .start events) := by
  constructor
  · exact signals_iff (fun _ none => nomatch none)
      (fun _ event placed => signalsNoOther_step_iff placed event) events
  · exact signals_iff (fun _ none => nomatch none)
      (fun _ event placed => signalsOwn_step_iff placed event) events

/-- A program is submitted, and the system chooses a pid. -/
def submitSleep (pid : Nat) : Event :=
  .submit (some (lit "sleep")) (some (lit "/bin/sleep")) (.ok pid) true

/-- A task's process ends and is waited for, the next task gets its pid, and the first task is
cancelled. -/
def waitedTask : List Event :=
  [submitSleep 100, .ends 100 (.exited 0), .wait 100 none, submitSleep 100, .cancel 1]

/-- The same with a program of another user instead of the next task. -/
def waitedStranger : List Event :=
  [submitSleep 100, .ends 100 (.exited 0), .wait (-1) (some 0), .arrives 100, .cancel 1]

/-- The first signals the process of the other task, the second the other program. -/
theorem other_process_signalled :
    ¬ AllStates Host.step SignalsNoOther .start waitedTask ∧
      (run Host.step .start waitedTask).sent = [⟨0, some (some 1)⟩] ∧
    ¬ AllStates Host.step SignalsNoOther .start waitedStranger ∧
      (run Host.step .start waitedStranger).sent = [⟨0, some none⟩] := by
  have next : ¬ SignalsNoOther (run Host.step .start waitedTask) := by decide +kernel
  have stranger : ¬ SignalsNoOther (run Host.step .start waitedStranger) := by decide +kernel
  exact ⟨fun unharmed => next unharmed.last, by decide +kernel,
    fun unharmed => stranger unharmed.last, by decide +kernel⟩

end HwrunOs.Pmp
