import HwrunOs.Pmp.Task

/-!
# Tasks that are over

A task that is finished, failed or cancelled should stay so. A status query writes the outcome of
the process it waited for into the first entry with its pid, whatever the state of that entry is: a
task that was cancelled while its process ran becomes failed or finished later on, whichever task
was asked about.
-/

namespace HwrunOs.Pmp

open HwrunOs.Bytes HwrunOs.Lookup HwrunOs.Runs

/-! ## The property and its condition -/

/-- The task is over. -/
def TaskStatus.Terminal (state : TaskStatus) : Prop :=
  state = .finished ∨ state = .failed ∨ state = .cancelled

instance (state : TaskStatus) : Decidable state.Terminal :=
  inferInstanceAs (Decidable (_ ∨ _ ∨ _))

/-- Every task that is over in one world is in the same state in the other. -/
def StatesKept (world later : World) : Prop :=
  ∀ entry ∈ world.table, entry.state.Terminal →
    ∃ same ∈ later.table, same.number = entry.number ∧ same.state = entry.state

instance (world later : World) : Decidable (StatesKept world later) :=
  inferInstanceAs (Decidable (∀ entry ∈ world.table, _ → ∃ same ∈ later.table, _))

/-- In a run no task that is over ever changes its state. -/
def NeverChanges (actions : List Action) : Prop :=
  ∀ front middle back, actions = front ++ middle ++ back →
    StatesKept (run step .start front) (run step .start (front ++ middle))

/-- A status query does not wait for a process whose pid is, in the first entry that has it, that of
a task that is over in another state. -/
def ReapsOpen (world : World) : Action → Prop
  | .status id choice =>
    (taskFind world.table id).isSome →
      ∀ child status, waitAny world.children choice = some (child, status) →
        ∀ entry, world.table.find? (fun entry => entry.pid == child.pid) = some entry →
          entry.state.Terminal → entry.state = status.state
  | _ => True

/-! ## Numbers of tasks -/

/-- The entries have different numbers, below that of the next one. -/
structure Numbered (world : World) : Prop where
  /-- No number repeats. -/
  distinct : (world.table.map TaskEntry.number).Nodup
  /-- The next number is new. -/
  below : ∀ entry ∈ world.table, entry.number < world.table.length

/-- Two entries with the same number are one. -/
theorem Numbered.unique {world : World} (numbered : Numbered world) {first second : TaskEntry}
    (firstIn : first ∈ world.table) (secondIn : second ∈ world.table)
    (same : first.number = second.number) : first = second :=
  List.inj_on_of_nodup_map numbered.distinct firstIn secondIn same

/-- A world with the same numbers is numbered too. -/
theorem Numbered.congr {world later : World} (numbered : Numbered world)
    (same : later.table.map TaskEntry.number = world.table.map TaskEntry.number) :
    Numbered later := by
  have length : later.table.length = world.table.length := by
    simpa using congrArg List.length same
  refine ⟨same ▸ numbered.distinct, ?_⟩
  intro entry found
  have listed : entry.number ∈ world.table.map TaskEntry.number :=
    same ▸ List.mem_map_of_mem found
  obtain ⟨old, member, number⟩ := List.mem_map.mp listed
  rw [length, ← number]
  exact numbered.below old member

/-- Waiting for a child keeps the numbers. -/
theorem taskReap_numbers (world : World) (choice : Nat) :
    (taskReap world choice).table.map TaskEntry.number = world.table.map TaskEntry.number := by
  unfold taskReap
  split
  · rfl
  · rename_i child status _
    have keeps : ∀ entry : TaskEntry, (entry.record status).number = entry.number := fun _ => rfl
    exact map_updateFirst keeps _

/-- Every action keeps the numbers. -/
theorem step_numbered (world : World) (action : Action) (numbered : Numbered world) :
    Numbered (step world action) := by
  cases action with
  | submit name path fork memory =>
    rw [step]
    rcases pmpTaskSubmit_cases world name path fork memory with
      same | ⟨choice, same | ⟨entry, number, -, -, same⟩⟩
    · rw [same]
      exact numbered
    · rw [same]
      exact numbered.congr rfl
    · rw [same]
      constructor
      · refine List.nodup_cons.mpr ⟨?_, numbered.distinct⟩
        intro listed
        obtain ⟨old, member, same⟩ := List.mem_map.mp listed
        exact absurd (same.trans number) (Nat.ne_of_lt (numbered.below old member))
      · intro other found
        rcases List.mem_cons.mp found with rfl | old
        · exact number ▸ Nat.lt_succ_self _
        · exact Nat.lt_succ_of_lt (numbered.below other old)
  | cancel id =>
    have keeps : ∀ entry : TaskEntry,
        ({ entry with state := .cancelled } : TaskEntry).number = entry.number := fun _ => rfl
    show Numbered (pmpTaskCancel world id).1
    unfold pmpTaskCancel
    split
    · exact numbered
    · split
      · exact numbered
      · exact numbered.congr (map_updateFirst keeps _)
  | status id choice =>
    rw [step, pmpTaskStatus_world]
    split
    · exact numbered.congr (taskReap_numbers world choice)
    · exact numbered
  | ends pid status => exact numbered.congr rfl
  | spawn choice => exact numbered.congr rfl
  | wait pid => exact numbered.congr rfl

/-- Every world of a run is numbered. -/
theorem start_numbered : Numbered .start := ⟨List.nodup_nil, by simp [World.start]⟩

/-! ## One action -/

/-- Nothing changes by itself. -/
theorem StatesKept.refl (world : World) : StatesKept world world :=
  fun entry found _ => ⟨entry, found, rfl, rfl⟩

/-- States that stay from one world to the next stay over both. -/
theorem StatesKept.trans {first second third : World} (kept : StatesKept first second)
    (later : StatesKept second third) : StatesKept first third := by
  intro entry found terminal
  obtain ⟨middle, middleIn, number, state⟩ := kept entry found terminal
  obtain ⟨last, lastIn, lastNumber, lastState⟩ := later middle middleIn (state ▸ terminal)
  exact ⟨last, lastIn, lastNumber.trans number, lastState.trans state⟩

/-- The table after waiting for a child: the first entry with its pid has the outcome. -/
theorem taskReap_table {world : World} (numbered : Numbered world) {choice : Nat} {child : Child}
    {status : WaitStatus} (waited : waitAny world.children choice = some (child, status))
    {first : TaskEntry}
    (found : world.table.find? (fun entry => entry.pid == child.pid) = some first) :
    (taskReap world choice).table =
      world.table.map fun entry =>
        if entry.number = first.number then entry.record status else entry := by
  rw [taskReap, waited]
  exact updateFirst_eq_map numbered.distinct found

/-- Waiting for a child changes no task that is over, exactly when the first entry with its pid is
not over in another state. -/
theorem taskReap_kept_iff {world : World} (numbered : Numbered world) (choice : Nat) :
    StatesKept world (taskReap world choice) ↔
      ∀ child status, waitAny world.children choice = some (child, status) →
        ∀ entry, world.table.find? (fun entry => entry.pid == child.pid) = some entry →
          entry.state.Terminal → entry.state = status.state := by
  constructor
  · intro kept child status waited first found terminal
    have listed := List.mem_of_find?_eq_some found
    obtain ⟨later, laterIn, number, state⟩ := kept first listed terminal
    rw [taskReap_table numbered waited found] at laterIn
    obtain ⟨old, -, changed⟩ := List.mem_map.mp laterIn
    by_cases same : old.number = first.number
    · rw [if_pos same] at changed
      rw [← state, ← changed]
      rfl
    · rw [if_neg same] at changed
      exact absurd (changed ▸ number) same
  · intro settled entry listed terminal
    cases waited : waitAny world.children choice with
    | none =>
      rw [taskReap, waited]
      exact ⟨entry, listed, rfl, rfl⟩
    | some pair =>
      obtain ⟨child, status⟩ := pair
      cases found : world.table.find? (fun entry => entry.pid == child.pid) with
      | none =>
        rw [taskReap, waited]
        dsimp only
        rw [updateFirst_of_none found]
        exact ⟨entry, listed, rfl, rfl⟩
      | some first =>
        rw [taskReap_table numbered waited found]
        refine ⟨_, List.mem_map_of_mem listed, ?_⟩
        by_cases same : entry.number = first.number
        · rw [if_pos same]
          obtain rfl := numbered.unique listed (List.mem_of_find?_eq_some found) same
          exact ⟨rfl, (settled child status waited entry found terminal).symm⟩
        · rw [if_neg same]
          exact ⟨rfl, rfl⟩

/-- A task that is cancelled was not over. -/
theorem pmpTaskCancel_kept {world : World} (numbered : Numbered world) (id : UInt64) :
    StatesKept world (pmpTaskCancel world id).1 := by
  unfold pmpTaskCancel
  cases found : taskFind world.table id with
  | none => exact .refl world
  | some first =>
    dsimp only
    split
    · exact .refl world
    · rename_i running
      have alive : ¬ first.state.Terminal := by
        rintro (terminal | terminal | terminal) <;> simp [terminal] at running
      intro entry listed terminal
      show ∃ same ∈ updateFirst _ _ world.table, _
      rw [updateFirst_eq_map numbered.distinct found]
      refine ⟨_, List.mem_map_of_mem listed, ?_⟩
      have other : entry.number ≠ first.number := by
        intro same
        obtain rfl := numbered.unique listed (List.mem_of_find?_eq_some found) same
        exact alive terminal
      rw [if_neg other]
      exact ⟨rfl, rfl⟩

/-- An action changes no task that is over exactly when it meets the condition. -/
theorem step_kept_iff {world : World} (numbered : Numbered world) (action : Action) :
    StatesKept world (step world action) ↔ ReapsOpen world action := by
  cases action with
  | submit name path fork memory =>
    refine iff_of_true ?_ trivial
    rw [step]
    rcases pmpTaskSubmit_cases world name path fork memory with
      same | ⟨choice, same | ⟨entry, -, -, -, same⟩⟩
    · rw [same]
      exact .refl world
    · rw [same]
      exact .refl world
    · rw [same]
      exact fun old listed _ => ⟨old, List.mem_cons_of_mem _ listed, rfl, rfl⟩
  | cancel id => exact iff_of_true (pmpTaskCancel_kept numbered id) trivial
  | status id choice =>
    rw [step, pmpTaskStatus_world, ReapsOpen]
    by_cases named : (taskFind world.table id).isSome = true
    · rw [if_pos named, taskReap_kept_iff numbered]
      exact ⟨fun settled _ => settled, fun settled => settled named⟩
    · rw [if_neg named]
      exact iff_of_true (.refl world) fun isSome => absurd isSome named
  | ends pid status => exact iff_of_true (.refl world) trivial
  | spawn choice => exact iff_of_true (.refl world) trivial
  | wait pid => exact iff_of_true (.refl world) trivial

/-! ## Every run -/

/-- In a run no task that is over ever changes its state, exactly when no status query waits for a
process whose pid is that of a task that is over in another state. -/
theorem never_changes_iff (actions : List Action) :
    NeverChanges actions ↔ AllSteps step ReapsOpen .start actions := by
  have everywhere := @allSteps_related_iff World Action step StatesKept StatesKept.refl
    (fun _ _ _ => StatesKept.trans) .start actions
  rw [NeverChanges, ← everywhere]
  apply allSteps_iff _ _ _ start_numbered
  · exact fun world action numbered _ => step_numbered world action numbered
  · exact fun world action numbered met => (step_kept_iff numbered action).mpr met
  · exact fun world action numbered missed kept => missed ((step_kept_iff numbered action).mp kept)

/-- A task is cancelled, its process dies of the signal, and it is asked about. -/
def cancelledRun : List Action :=
  [.submit (some (lit "sleep")) (some (lit "/bin/sleep")) (.ok 7) true, .cancel 1,
    .ends 7 (.signaled 15), .status 1 0]

/-- The cancelled task becomes a failed one. -/
theorem cancelled_becomes_failed : ¬ NeverChanges cancelledRun := by
  intro never
  have kept := never (cancelledRun.take 3) (cancelledRun.drop 3) [] rfl
  revert kept
  decide +kernel

end HwrunOs.Pmp
