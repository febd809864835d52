import HwrunOs.Pmp.Settled
import Mathlib.Data.List.MinMax

/-!
# What a status query reports

A query for a task whose process ended should report how. It waits for one child that ended, which
need not be the process of that task: then the task is reported as running although its process
is gone. As long as no other child is waited for under the pid of a task, the report is right
exactly when the query that finds the process ended waits for it.
-/

namespace HwrunOs.Pmp

open HwrunOs.Bytes HwrunOs.Lookup HwrunOs.Runs

/-! ## The property and its conditions -/

/-- The process of a task ended, and was not waited for by another component. -/
def Exited (world : World) (number : Nat) (status : WaitStatus) : Prop :=
  (∃ child ∈ world.children, child.task = some number ∧ child.ended = some status) ∨
    (number, status) ∈ world.collected

/-- A query for a task whose process ended reports it as finished or failed, with what the process
left. -/
def ReportsOutcome (world : World) : Action → Prop
  | .status id choice =>
    ∀ entry, taskFind world.table id = some entry → ∀ status, Exited world entry.number status →
      ∃ report, (pmpTaskStatus world id choice).2 = .ok report ∧
        report.state = status.state ∧ report.exitStatus = status.exitStatus
  | _ => True

/-- A query for a task whose process ended and was not waited for waits for this process. -/
def WaitsForTask (world : World) : Action → Prop
  | .status id choice =>
    ∀ entry ∈ taskFind world.table id, ∀ child ∈ world.children,
      child.task = some entry.number → ∀ status ∈ child.ended,
        waitAny world.children choice = some (child, status)
  | _ => True

/-- No child that is no task is waited for under the pid of a task. -/
def OwnPid (world : World) : Action → Prop
  | .status id choice =>
    (taskFind world.table id).isSome → ∀ waited ∈ waitAny world.children choice,
      waited.1.task = none → ∀ entry ∈ world.table, entry.pid ≠ waited.1.pid
  | _ => True

instance (world : World) : (action : Action) → Decidable (WaitsForTask world action)
  | .status id choice =>
    inferInstanceAs (Decidable (∀ entry ∈ taskFind world.table id, ∀ child ∈ world.children,
      child.task = some entry.number → ∀ status ∈ child.ended,
        waitAny world.children choice = some (child, status)))
  | .submit .. | .cancel _ | .ends _ _ | .spawn _ | .wait _ => .isTrue trivial

instance (world : World) : (action : Action) → Decidable (OwnPid world action)
  | .status id choice =>
    inferInstanceAs (Decidable ((taskFind world.table id).isSome →
      ∀ waited ∈ waitAny world.children choice,
        waited.1.task = none → ∀ entry ∈ world.table, entry.pid ≠ waited.1.pid))
  | .submit .. | .cancel _ | .ends _ _ | .spawn _ | .wait _ => .isTrue trivial

/-! ## Children -/

/-- A pid that is given out is not in use. -/
theorem freePid_not_mem (children : List Child) (choice : Nat) :
    freePid children choice ∉ children.map Child.pid := by
  unfold freePid
  split
  · intro listed
    exact absurd (List.le_max_of_le' 0 listed le_rfl) (Nat.not_succ_le_self _)
  · rename_i free
    exact (not_or.mp free).2

/-- A child that was waited for had ended. -/
theorem waitAny_mem {children : List Child} {choice : Nat} {child : Child} {status : WaitStatus}
    (waited : waitAny children choice = some (child, status)) :
    child ∈ children ∧ child.ended = some status := by
  have listed : (child, status) ∈ zombies children := by
    rcases Option.or_eq_some_iff.mp waited with at_ | ⟨-, first⟩
    · exact List.mem_of_getElem? at_
    · exact List.mem_of_head? first
  obtain ⟨found, member, pair⟩ := List.mem_filterMap.mp listed
  obtain ⟨ended, same, both⟩ := Option.map_eq_some_iff.mp pair
  obtain ⟨rfl, rfl⟩ := Prod.mk.inj both
  exact ⟨member, same⟩

/-- An entry found by a pid has it. -/
theorem pid_of_find? {table : List TaskEntry} {pid : Nat} {entry : TaskEntry}
    (found : table.find? (fun entry => entry.pid == pid) = some entry) : entry.pid = pid := by
  have same := List.find?_some found
  simpa using same

/-- A change that leaves ids alone leaves the search for an id. -/
theorem taskFind_map {change : TaskEntry → TaskEntry}
    (keeps : ∀ entry, (change entry).id = entry.id) (table : List TaskEntry) (id : UInt64) :
    taskFind (table.map change) id = (taskFind table id).map change := by
  have unseen : ∀ entry, ((change entry).id == id) = (entry.id == id) := by
    intro entry
    rw [keeps]
  exact find?_map_of_keeps unseen table

/-! ## Who owns a process -/

/-- The children have different pids; the first entry with the pid of the process of a task is that
of the task, which is not known to be over; and what was waited for is recorded. -/
structure Owned (world : World) : Prop extends Numbered world where
  /-- No pid repeats. -/
  pids : (world.children.map Child.pid).Nodup
  /-- The first entry with the pid of a process is that of its task. -/
  owner : ∀ child ∈ world.children, ∀ number, child.task = some number →
    ∃ entry, world.table.find? (fun entry => entry.pid == child.pid) = some entry ∧
      entry.number = number ∧ (entry.state = .running ∨ entry.state = .cancelled)
  /-- A process is waited for once. -/
  apart : ∀ child ∈ world.children, ∀ number, child.task = some number →
    ∀ status, (number, status) ∉ world.collected
  /-- The processes that were waited for are of tasks. -/
  known : ∀ number status, (number, status) ∈ world.collected → number < world.table.length
  /-- Their entries show their outcome. -/
  shown : ∀ number status, (number, status) ∈ world.collected →
    ∃ entry ∈ world.table, entry.number = number ∧ entry.state = status.state ∧
      entry.exitStatus = status.exitStatus

/-- An outcome is no state of a task that goes on. -/
theorem WaitStatus.state_over (status : WaitStatus) :
    status.state ≠ .running ∧ status.state ≠ .pending ∧ status.state ≠ .cancelled := by
  cases status with
  | exited code =>
    by_cases zero : code = 0 <;> simp [WaitStatus.state, zero]
  | signaled signal => simp [WaitStatus.state]

namespace Owned

variable {world : World}

/-- Two children with the same pid are one. -/
theorem unique_child (owned : Owned world) {first second : Child}
    (firstIn : first ∈ world.children) (secondIn : second ∈ world.children)
    (same : first.pid = second.pid) : first = second :=
  List.inj_on_of_nodup_map owned.pids firstIn secondIn same

/-- The entry of the process of a task has its pid. -/
theorem pid_eq (owned : Owned world) {child : Child} (listed : child ∈ world.children)
    {entry : TaskEntry} (member : entry ∈ world.table)
    (task : child.task = some entry.number) :
    world.table.find? (fun entry => entry.pid == child.pid) = some entry ∧
      entry.pid = child.pid ∧ (entry.state = .running ∨ entry.state = .cancelled) := by
  obtain ⟨first, found, number, state⟩ := owned.owner child listed _ task
  obtain rfl := owned.unique (List.mem_of_find?_eq_some found) member number
  exact ⟨found, pid_of_find? found, state⟩

/-- The process of a task is the only one of this task. -/
theorem unique_task (owned : Owned world) {first second : Child}
    (firstIn : first ∈ world.children) (secondIn : second ∈ world.children) {number : Nat}
    (firstTask : first.task = some number) (secondTask : second.task = some number) :
    first = second := by
  obtain ⟨entry, found, rfl, -⟩ := owned.owner first firstIn _ firstTask
  have member := List.mem_of_find?_eq_some found
  have firstPid := (owned.pid_eq firstIn member firstTask).2.1
  have secondPid := (owned.pid_eq secondIn member secondTask).2.1
  exact owned.unique_child firstIn secondIn (firstPid.symm.trans secondPid)

end Owned

/-! ## One query -/

/-- The entry reported has the outcome of the child that was waited for, if it is the first with its
pid. -/
theorem report_recorded {world : World} (numbered : Numbered world) {id : UInt64} {choice : Nat}
    {entry : TaskEntry} (named : taskFind world.table id = some entry) {child : Child}
    {status : WaitStatus} (waited : waitAny world.children choice = some (child, status))
    (found : world.table.find? (fun entry => entry.pid == child.pid) = some entry) :
    (pmpTaskStatus world id choice).2 = .ok (entry.record status) := by
  have reported : taskFind (taskReap world choice).table id = some (entry.record status) := by
    rw [taskReap_table numbered waited found, taskFind_map, named, Option.map_some, if_pos rfl]
    intro other
    split <;> rfl
  rw [pmpTaskStatus, named]
  dsimp only
  rw [reported]

/-- The entry is reported as it is, if the child that was waited for is another's. -/
theorem report_unchanged {world : World} (numbered : Numbered world) {id : UInt64} {choice : Nat}
    {entry : TaskEntry} (named : taskFind world.table id = some entry)
    (other : ∀ child status, waitAny world.children choice = some (child, status) →
      world.table.find? (fun entry => entry.pid == child.pid) ≠ some entry) :
    (pmpTaskStatus world id choice).2 = .ok entry := by
  have reported : taskFind (taskReap world choice).table id = some entry := by
    cases waited : waitAny world.children choice with
    | none => rw [taskReap, waited, named]
    | some pair =>
      obtain ⟨child, status⟩ := pair
      cases found : world.table.find? (fun entry => entry.pid == child.pid) with
      | none =>
        rw [taskReap, waited]
        dsimp only
        rw [updateFirst_of_none found, named]
      | some first =>
        have listed := List.mem_of_find?_eq_some named
        have different : entry.number ≠ first.number := by
          intro same
          have one := numbered.unique listed (List.mem_of_find?_eq_some found) same
          exact other child status waited (one ▸ found)
        rw [taskReap_table numbered waited found, taskFind_map, named, Option.map_some,
          if_neg different]
        intro other
        split <;> rfl
  rw [pmpTaskStatus, named]
  dsimp only
  rw [reported]

/-- A query that waits for the process of its task reports the outcome. -/
theorem reports_of_waits {world : World} (owned : Owned world) {action : Action}
    (own : OwnPid world action) (waits : WaitsForTask world action) :
    ReportsOutcome world action := by
  cases action with
  | status id choice =>
    intro entry named status exited
    have listed := List.mem_of_find?_eq_some named
    rcases exited with ⟨child, childIn, task, ended⟩ | collected
    · have waited := waits entry named child childIn task status ended
      obtain ⟨found, -, -⟩ := owned.pid_eq childIn listed task
      exact ⟨_, report_recorded owned.toNumbered named waited found, rfl, rfl⟩
    · obtain ⟨shown, shownIn, number, state, left⟩ := owned.shown _ _ collected
      obtain rfl := owned.unique shownIn listed number
      refine ⟨shown, report_unchanged owned.toNumbered named ?_, state, left⟩
      intro child ended waited found
      have childIn := (waitAny_mem waited).1
      have pid := pid_of_find? found
      cases task : child.task with
      | none => exact own (by rw [named]; rfl) (child, ended) waited task shown listed pid
      | some number =>
        obtain ⟨first, firstFound, rfl, -⟩ := owned.owner child childIn _ task
        obtain rfl := Option.some.inj (found.symm.trans firstFound)
        exact owned.apart child childIn _ task status collected
  | submit name path fork memory => trivial
  | cancel id => trivial
  | ends pid status => trivial
  | spawn choice => trivial
  | wait pid => trivial

/-- A query that waits for another child, or for none, reports a task as not over. -/
theorem not_reports_of_not_waits {world : World} (owned : Owned world) {action : Action}
    (missed : ¬ WaitsForTask world action) : ¬ ReportsOutcome world action := by
  cases action with
  | status id choice =>
    intro reports
    apply missed
    intro entry named child childIn task status ended
    have listed := List.mem_of_find?_eq_some named
    obtain ⟨-, pid, state⟩ := owned.pid_eq childIn listed task
    by_contra other
    have unchanged : (pmpTaskStatus world id choice).2 = .ok entry := by
      refine report_unchanged owned.toNumbered named ?_
      intro waitedChild waitedStatus waited found
      have ofList := waitAny_mem waited
      have same : child = waitedChild :=
        owned.unique_child childIn ofList.1 (pid.symm.trans (pid_of_find? found))
      subst same
      rw [ended, Option.some.injEq] at ofList
      exact other (ofList.2 ▸ waited)
    have exited : Exited world entry.number status := .inl ⟨child, childIn, task, ended⟩
    obtain ⟨report, given, outcome, -⟩ := reports entry named status exited
    rw [unchanged, Except.ok.injEq] at given
    subst given
    have terminal := status.state_over
    rcases state with running | cancelled
    · exact terminal.1 (outcome ▸ running)
    · exact terminal.2.2 (outcome ▸ cancelled)
  | submit name path fork memory => exact absurd trivial missed
  | cancel id => exact absurd trivial missed
  | ends pid status => exact absurd trivial missed
  | spawn choice => exact absurd trivial missed
  | wait pid => exact absurd trivial missed

/-! ## Every action keeps the owners -/

/-- Children that were children before, with the same pids and tasks. -/
theorem Owned.of_children {world : World} (owned : Owned world) {children : List Child}
    (old : ∀ child ∈ children, ∃ before ∈ world.children,
      before.pid = child.pid ∧ before.task = child.task)
    (pids : (children.map Child.pid).Nodup) : Owned { world with children := children } := by
  refine ⟨owned.toNumbered.congr rfl, pids, ?_, ?_, owned.known, owned.shown⟩
  · intro child listed number task
    obtain ⟨before, beforeIn, pid, same⟩ := old child listed
    obtain ⟨entry, found, rest⟩ := owned.owner before beforeIn number (same.trans task)
    exact ⟨entry, pid ▸ found, rest⟩
  · intro child listed number task
    obtain ⟨before, beforeIn, -, same⟩ := old child listed
    exact owned.apart before beforeIn number (same.trans task)

/-- A child that is no task. -/
theorem Owned.spawn {world : World} (owned : Owned world) (choice : Nat) :
    Owned (step world (.spawn choice)) := by
  refine ⟨owned.toNumbered.congr rfl, ?_, ?_, ?_, owned.known, owned.shown⟩
  · exact List.nodup_cons.mpr ⟨freePid_not_mem _ _, owned.pids⟩
  · intro child listed number task
    rcases List.mem_cons.mp listed with rfl | old
    · cases task
    · exact owned.owner child old number task
  · intro child listed number task
    rcases List.mem_cons.mp listed with rfl | old
    · cases task
    · exact owned.apart child old number task

/-- A child with its entry. -/
theorem Owned.submit {world : World} (owned : Owned world) {choice : Nat} {entry : TaskEntry}
    (number : entry.number = world.table.length) (pid : entry.pid = freePid world.children choice)
    (running : entry.state = .running) (numbered : Numbered { world with
      table := entry :: world.table
      seq := world.seq + 1
      children := ⟨entry.pid, none, some entry.number⟩ :: world.children }) :
    Owned { world with
      table := entry :: world.table
      seq := world.seq + 1
      children := ⟨entry.pid, none, some entry.number⟩ :: world.children } := by
  have free : entry.pid ∉ world.children.map Child.pid := pid ▸ freePid_not_mem _ _
  refine ⟨numbered, List.nodup_cons.mpr ⟨free, owned.pids⟩, ?_, ?_, ?_, ?_⟩
  · intro child listed wanted task
    rcases List.mem_cons.mp listed with rfl | old
    · obtain rfl := Option.some.inj task
      exact ⟨entry, List.find?_cons_of_pos (beq_self_eq_true _), rfl, .inl running⟩
    · obtain ⟨first, found, rest⟩ := owned.owner child old wanted task
      have other : ¬ (entry.pid == child.pid) = true := by
        rw [beq_iff_eq]
        intro same
        exact free (same ▸ List.mem_map_of_mem old)
      have skipped := @List.find?_cons_of_neg _ (fun entry : TaskEntry => entry.pid == child.pid)
        entry world.table other
      exact ⟨first, skipped.trans found, rest⟩
  · intro child listed wanted task status collected
    rcases List.mem_cons.mp listed with rfl | old
    · obtain rfl := Option.some.inj task
      exact absurd (owned.known _ status collected) (number ▸ Nat.lt_irrefl _)
    · exact owned.apart child old wanted task status collected
  · intro wanted status collected
    exact Nat.lt_succ_of_lt (owned.known wanted status collected)
  · intro wanted status collected
    obtain ⟨shown, shownIn, rest⟩ := owned.shown wanted status collected
    exact ⟨shown, List.mem_cons_of_mem _ shownIn, rest⟩

/-- A task that is cancelled. -/
theorem Owned.cancel {world : World} (owned : Owned world) (id : UInt64) :
    Owned (step world (.cancel id)) := by
  have numbered := step_numbered world (.cancel id) owned.toNumbered
  rw [step] at numbered ⊢
  unfold pmpTaskCancel at numbered ⊢
  cases found : taskFind world.table id with
  | none => exact owned
  | some first =>
    rw [found] at numbered
    dsimp only at numbered ⊢
    split
    · exact owned
    · rename_i open_
      rw [if_neg open_] at numbered
      have table := @updateFirst_eq_map TaskEntry (fun entry => entry.id == id)
        (fun entry => { entry with state := .cancelled }) _ _ _ world.table owned.distinct first
        found
      refine ⟨numbered, owned.pids, ?_, owned.apart, ?_, ?_⟩
      · intro child listed number task
        obtain ⟨entry, entryFound, rfl, state⟩ := owned.owner child listed number task
        dsimp only
        rw [table, find?_map_of_keeps (by intro item; split <;> rfl), entryFound]
        refine ⟨_, rfl, ?_⟩
        dsimp only
        by_cases here : entry.number = first.number
        · rw [if_pos here]
          exact ⟨rfl, .inr rfl⟩
        · rw [if_neg here]
          exact ⟨rfl, state⟩
      · intro number status collected
        have length := congrArg List.length table
        rw [List.length_map] at length
        exact length ▸ owned.known number status collected
      · intro number status collected
        obtain ⟨shown, shownIn, rfl, state, left⟩ := owned.shown number status collected
        have different : shown.number ≠ first.number := by
          intro same
          obtain rfl := owned.unique shownIn (List.mem_of_find?_eq_some found) same
          have terminal := status.state_over
          rw [← state] at terminal
          exact open_ ⟨terminal.1, terminal.2.1⟩
        dsimp only
        rw [table]
        exact ⟨_, List.mem_map_of_mem shownIn, by rw [if_neg different], by
          rw [if_neg different, state], by rw [if_neg different, left]⟩

/-- The children that are left have other pids. -/
theorem Owned.mem_left {world : World} (owned : Owned world) {child other : Child}
    (childIn : child ∈ world.children)
    (listed : other ∈ world.children.eraseP fun other => other.pid == child.pid) :
    other ∈ world.children ∧ other.pid ≠ child.pid := by
  refine ⟨List.mem_of_mem_eraseP listed, ?_⟩
  obtain ⟨gone, found⟩ : ∃ gone,
      world.children.find? (fun other => other.pid == child.pid) = some gone := by
    apply Option.isSome_iff_exists.mp
    rw [List.find?_isSome]
    exact ⟨child, childIn, beq_self_eq_true _⟩
  have pid : gone.pid = child.pid := by simpa using List.find?_some found
  exact pid ▸ key_ne_of_mem_eraseP owned.pids found listed

/-- The process of a task is waited for: its entry shows the outcome. -/
theorem Owned.reapTask {world : World} (owned : Owned world) {choice : Nat} {child : Child}
    {status : WaitStatus} (waited : waitAny world.children choice = some (child, status))
    {first : TaskEntry} (task : child.task = some first.number)
    (found : world.table.find? (fun entry => entry.pid == child.pid) = some first) :
    Owned (taskReap world choice) := by
  have childIn := (waitAny_mem waited).1
  have firstIn := List.mem_of_find?_eq_some found
  have table := taskReap_table owned.toNumbered waited found
  have children : (taskReap world choice).children =
      world.children.eraseP fun other => other.pid == child.pid := by
    rw [taskReap, waited]
  have collected : (taskReap world choice).collected =
      (first.number, status) :: world.collected := by
    rw [taskReap, waited]
    dsimp only
    rw [task]
  refine ⟨owned.toNumbered.congr (taskReap_numbers world choice), ?_, ?_, ?_, ?_, ?_⟩
  · rw [children]
    exact owned.pids.sublist (List.eraseP_sublist.map Child.pid)
  · intro other listed wanted otherTask
    rw [children] at listed
    obtain ⟨otherIn, pid⟩ := owned.mem_left childIn listed
    obtain ⟨entry, entryFound, rfl, state⟩ := owned.owner other otherIn wanted otherTask
    have different : entry.number ≠ first.number := by
      intro same
      obtain rfl := owned.unique (List.mem_of_find?_eq_some entryFound) firstIn same
      exact pid ((pid_of_find? entryFound).symm.trans (pid_of_find? found))
    rw [table, find?_map_of_keeps (by intro item; split <;> rfl), entryFound]
    refine ⟨entry, ?_, rfl, state⟩
    rw [Option.map_some, if_neg different]
  · intro other listed wanted otherTask outcome given
    rw [children] at listed
    obtain ⟨otherIn, pid⟩ := owned.mem_left childIn listed
    rw [collected] at given
    rcases List.mem_cons.mp given with new | old
    · obtain ⟨rfl, -⟩ := Prod.mk.inj new
      exact pid (congrArg Child.pid (owned.unique_task otherIn childIn otherTask task))
    · exact owned.apart other otherIn wanted otherTask outcome old
  · intro wanted outcome given
    rw [collected] at given
    rw [table, List.length_map]
    rcases List.mem_cons.mp given with new | old
    · obtain ⟨rfl, -⟩ := Prod.mk.inj new
      exact owned.below first firstIn
    · exact owned.known wanted outcome old
  · intro wanted outcome given
    rw [collected] at given
    rw [table]
    rcases List.mem_cons.mp given with new | old
    · obtain ⟨rfl, rfl⟩ := Prod.mk.inj new
      exact ⟨_, List.mem_map_of_mem firstIn, by rw [if_pos rfl]; exact ⟨rfl, rfl, rfl⟩⟩
    · obtain ⟨shown, shownIn, rfl, state, exit⟩ := owned.shown wanted outcome old
      have different : shown.number ≠ first.number := by
        intro same
        exact owned.apart child childIn _ task outcome (same ▸ old)
      exact ⟨_, List.mem_map_of_mem shownIn, by rw [if_neg different]; exact ⟨rfl, state, exit⟩⟩

/-- A child that is waited for, unless it is no task and has the pid of one. -/
theorem Owned.reap {world : World} (owned : Owned world) {choice : Nat}
    (own : ∀ child status, waitAny world.children choice = some (child, status) →
      child.task = none → ∀ entry ∈ world.table, entry.pid ≠ child.pid) :
    Owned (taskReap world choice) := by
  cases waited : waitAny world.children choice with
  | none =>
    rw [taskReap, waited]
    exact owned
  | some pair =>
    obtain ⟨child, status⟩ := pair
    have childIn := (waitAny_mem waited).1
    cases task : child.task with
    | none =>
      have absent : world.table.find? (fun entry => entry.pid == child.pid) = none := by
        rw [List.find?_eq_none]
        intro entry listed
        simpa using own child status waited task entry listed
      rw [taskReap, waited]
      dsimp only
      rw [updateFirst_of_none absent, task]
      exact owned.of_children
        (fun other listed => ⟨other, (owned.mem_left childIn listed).1, rfl, rfl⟩)
        (owned.pids.sublist (List.eraseP_sublist.map Child.pid))
    | some number =>
      obtain ⟨first, found, rfl, -⟩ := owned.owner child childIn _ task
      exact owned.reapTask waited task found

/-- Every action keeps the owners, as long as no child that is no task is waited for under the pid
of one. -/
theorem step_owned {world : World} (owned : Owned world) {action : Action}
    (own : OwnPid world action) : Owned (step world action) := by
  cases action with
  | submit name path fork memory =>
    have numbered := step_numbered world (.submit name path fork memory) owned.toNumbered
    rw [step] at numbered ⊢
    rcases pmpTaskSubmit_cases world name path fork memory with
      same | ⟨choice, same | ⟨entry, number, pid, running, same⟩⟩
    · rw [same]
      exact owned
    · rw [same]
      exact owned.spawn choice
    · rw [same] at numbered ⊢
      exact owned.submit number pid running numbered
  | cancel id => exact owned.cancel id
  | status id choice =>
    rw [step, pmpTaskStatus_world]
    split
    · rename_i named
      exact owned.reap fun child status waited => own named (child, status) waited
    · exact owned
  | ends pid status =>
    have pidKept : ∀ child : Child, (child.finish pid status).pid = child.pid := by
      intro child
      unfold Child.finish
      split <;> rfl
    have taskKept : ∀ child : Child, (child.finish pid status).task = child.task := by
      intro child
      unfold Child.finish
      split <;> rfl
    apply owned.of_children
    · intro child listed
      obtain ⟨before, member, rfl⟩ := List.mem_map.mp listed
      exact ⟨before, member, (pidKept before).symm, (taskKept before).symm⟩
    · have pids : Child.pid ∘ Child.finish pid status = Child.pid := funext pidKept
      rw [List.map_map, pids]
      exact owned.pids
  | spawn choice => exact owned.spawn choice
  | wait pid =>
    apply owned.of_children
    · intro child listed
      exact ⟨child, List.mem_of_mem_filter listed, rfl, rfl⟩
    · exact owned.pids.sublist (List.filter_sublist.map Child.pid)

/-- At the start there are no processes. -/
theorem start_owned : Owned .start :=
  ⟨start_numbered, List.nodup_nil, by simp [World.start], by simp [World.start],
    by simp [World.start], by simp [World.start]⟩

/-! ## Every run -/

/-- In a run in which no child that is no task is waited for under the pid of a task, every query
for a task whose process ended reports its outcome exactly when every query for a task whose process
ended, and was not waited for yet, waits for this process. -/
theorem outcomes_reported_iff {actions : List Action}
    (own : AllSteps step OwnPid .start actions) :
    AllSteps step ReportsOutcome .start actions ↔ AllSteps step WaitsForTask .start actions := by
  apply allSteps_iff_of_usual _ _ _ start_owned own
  · exact fun world action owned own _ => step_owned owned own
  · exact fun world action owned own waits => reports_of_waits owned own waits
  · exact fun world action owned _ missed => not_reports_of_not_waits owned missed

/-- Two tasks, of which both processes end; the first is asked about. -/
def otherFirst (choice : Nat) : List Action :=
  [.submit none (some (lit "/bin/true")) (.ok 7) true,
    .submit none (some (lit "/bin/true")) (.ok 8) true,
    .ends 7 (.exited 0), .ends 8 (.exited 0), .status 1 choice]

/-- The query waits for the first one. -/
theorem outcomes_reported_first :
    AllSteps step OwnPid .start (otherFirst 1) ∧
      AllSteps step ReportsOutcome .start (otherFirst 1) := by
  have own : AllSteps step OwnPid .start (otherFirst 1) := by decide +kernel
  exact ⟨own, (outcomes_reported_iff own).mpr (by decide +kernel)⟩

/-- The query waits for the second one, and the first task is reported as running. -/
theorem ended_task_running :
    ((pmpTaskStatus (run step .start ((otherFirst 0).take 4)) 1 0).2.toOption.map
        TaskEntry.state) = some .running ∧
      ¬ AllSteps step ReportsOutcome .start (otherFirst 0) := by
  refine ⟨by decide +kernel, ?_⟩
  intro steps
  rw [← List.take_append_drop 4 (otherFirst 0), allSteps_append] at steps
  have own : AllSteps step OwnPid .start ((otherFirst 0).take 4) := by decide +kernel
  have kept (world : World) (action : Action) (owned : Owned world)
      (own : OwnPid world action) : Owned (step world action) := step_owned owned own
  have owned : Owned (run step .start ((otherFirst 0).take 4)) :=
    (allStates_of_steps kept start_owned own).last
  have missed : ¬ WaitsForTask (run step .start ((otherFirst 0).take 4)) (.status 1 0) := by
    decide +kernel
  exact not_reports_of_not_waits owned missed steps.2.1

end HwrunOs.Pmp
