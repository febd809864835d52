import HwrunOs.Library.Leases
import HwrunOs.Terminal.Session
import Mathlib.Data.List.MinMax

/-!
# What a close reaches

A copy of a session keeps the number of the master descriptor when the session is closed through
another copy, and every copy keeps the pid when the process was waited for. Both numbers are given
out again, and `term_close` asks neither the state of the copy nor the registry before it uses
them: it closes the descriptor, or kills the process, of whoever has the number by then.
-/

namespace HwrunOs.Terminal

open HwrunOs.Bytes HwrunOs.Leases HwrunOs.Runs

/-! ## The properties and their conditions -/

/-- The master of each session was closed at most once, every `close` was of the session's own
master, and every signal went to the process of the session that was not waited for. -/
structure ReachesOwn (world : World) : Prop where
  /-- No session repeats. -/
  once : world.closed.Nodup
  /-- Each descriptor that was closed. -/
  closes : ∀ reach ∈ world.closes, reach.owner = some (some reach.number)
  /-- Each process that was signalled. -/
  signals : ∀ reach ∈ world.signals, reach.owner = some (some reach.number)

/-- No close affected another session, another component or another program. -/
def ReachesNoOther (world : World) : Prop :=
  ∀ reach ∈ world.closes ++ world.signals,
    reach.owner = none ∨ reach.owner = some (some reach.number)

/-- No copy is closed that still has the descriptor number of a session closed before, or that is
of a session whose process was waited for. -/
def ClosesOpen (world : World) : Action → Prop
  | .close handle _ =>
    ∀ s, world.handles[handle]? = some s →
      (0 ≤ s.masterFd → s.number ∉ world.closed) ∧ (0 < s.pid → s.number ∉ world.reaped)
  | _ => True

/-- When such a copy is closed, nothing has the number. -/
def ClosesUnused (world : World) : Action → Prop
  | .close handle _ =>
    ∀ s, world.handles[handle]? = some s →
      (0 ≤ s.masterFd → s.number ∈ world.closed →
        world.descriptors.lookup s.masterFd.toNat = none) ∧
      (0 < s.pid → s.number ∈ world.reaped → world.processes.lookup s.pid = none)
  | _ => True

/-- What is one's own is nobody else's. -/
theorem ReachesOwn.noOther {world : World} (own : ReachesOwn world) : ReachesNoOther world := by
  intro reach found
  rcases List.mem_append.mp found with closed | signalled
  · exact .inr (own.closes reach closed)
  · exact .inr (own.signals reach signalled)

instance (world : World) : Decidable (ReachesNoOther world) :=
  inferInstanceAs (Decidable (∀ reach ∈ _, _))

/-- Closing only open sessions is enough. -/
theorem ClosesOpen.unused {world : World} {action : Action} (opened : ClosesOpen world action) :
    ClosesUnused world action := by
  cases action with
  | close handle dies =>
    intro s found
    obtain ⟨fd, pid⟩ := opened s found
    exact ⟨fun has again => absurd again (fd has), fun has again => absurd again (pid has)⟩
  | _ => trivial

/-! ## Numbers -/

/-- A number that is given out is not taken. -/
theorem freeNumber_free (least : Nat) (taken : List Nat) (choice : Nat) :
    freeNumber least taken choice ∉ taken := by
  unfold freeNumber
  split
  · rename_i free
    exact free.2
  · intro member
    exact absurd (List.le_max_of_le' least member le_rfl) (Nat.not_succ_le_self _)

/-- A number given out and taken back leaves the table. -/
theorem erase_insert {α : Type} {table : AList fun _ : Nat => α} {key : Nat} (value : α)
    (free : key ∉ table.keys) : (table.insert key value).erase key = table := by
  have absent : key ∉ table := fun member => free (AList.mem_keys.mp member)
  apply AList.ext
  show (table.insert key value).entries.kerase key = table.entries
  rw [AList.entries_insert_of_notMem absent]
  exact List.kerase_cons_eq rfl

/-! ## What the actions do -/

/-- That the copies of a session have a descriptor number. -/
def FdNoted (world : World) (number fd : Nat) : Prop :=
  ∃ s ∈ world.sessions ++ world.handles, s.number = number ∧ s.masterFd = fd

/-- That they have a pid. -/
def PidNoted (world : World) (number pid : Nat) : Prop :=
  ∃ s ∈ world.sessions ++ world.handles, s.number = number ∧ s.pid = pid

/-- Descriptors and pids are leased, and the copies of the sessions are notes of them. -/
structure Tracked (world : World) : Prop where
  /-- The descriptors; a lease ends with a `close`. -/
  fds : Leased (fun fd => world.descriptors.lookup fd) world.spawned world.closed (FdNoted world)
  /-- The pids; a lease ends when the process is waited for. -/
  pids : Leased world.processOwner world.spawned world.reaped (PidNoted world)

/-- Processes ended or were waited for, and nothing else happened. -/
def Passes (world later : World) : Prop :=
  ∃ processes reaped, later = { world with processes := processes, reaped := reaped } ∧
    ∀ count noted, Leased world.processOwner count world.reaped noted →
      Leased later.processOwner count reaped noted

/-- Nothing at all. -/
theorem Passes.refl (world : World) : Passes world world :=
  ⟨world.processes, world.reaped, rfl, fun _ _ leased => leased⟩

/-- One thing after another. -/
theorem Passes.trans {world middle later : World} (first : Passes world middle)
    (second : Passes middle later) : Passes world later := by
  obtain ⟨processes, reaped, rfl, kept⟩ := first
  obtain ⟨after, gone, rfl, still⟩ := second
  exact ⟨after, gone, rfl, fun count noted leased => still count noted (kept count noted leased)⟩

/-- A process ends. -/
theorem ends_passes (world : World) (pid : Nat) : Passes world (world.ends pid) := by
  unfold World.ends
  split
  · rename_i process found
    refine ⟨_, _, rfl, fun count noted leased => leased.others ?_⟩
    intro tenant key
    by_cases at_key : key = pid
    · rw [at_key]
      simp only [World.processOwner, AList.lookup_insert, found, Option.map_some]
    · simp only [World.processOwner, AList.lookup_insert_ne at_key]
  · exact .refl world

/-- A process is waited for. -/
theorem collect_passes (world : World) (pid : Nat) : Passes world (world.collect pid) := by
  unfold World.collect
  split
  · rename_i process found
    split
    · refine ⟨_, _, rfl, fun count noted leased => ?_⟩
      have held : world.processOwner pid = some process.session := by
        rw [World.processOwner, found, Option.map_some]
      have now : (world.processes.erase pid).lookup pid = none := AList.lookup_erase _ _
      have same : ∀ other, other ≠ pid →
          (world.processes.erase pid).lookup other = world.processes.lookup other :=
        fun other elsewhere => AList.lookup_erase_ne elsewhere
      cases owner : process.session with
      | none =>
        refine leased.other pid (by simp [held, owner]) (by simp [World.processOwner, now]) ?_
        intro other elsewhere
        simp only [World.processOwner, same other elsewhere]
      | some number =>
        refine leased.giveBack (held.trans (congrArg some owner)) ?_ ?_
        · simp only [World.processOwner, now, Option.map_none]
        · intro other elsewhere
          simp only [World.processOwner, same other elsewhere]
    · exact .refl world
  · exact .refl world

/-- `waitpid` waits for a process or does nothing. -/
theorem waitpid_passes (world : World) (pid : Nat) : Passes world (world.waitpid pid).1 := by
  unfold World.waitpid
  split
  · split
    · split
      · exact collect_passes world pid
      · exact .refl world
    · exact .refl world
  · exact .refl world

/-- A spawn fails and leaves the world, or gives free numbers to a session. -/
theorem termSpawn_cases (world : World) (cfg : Option Spawn) (out : Bool) (answers : Answers) :
    (∃ rc, termSpawn world cfg out answers = (world, .error rc)) ∨
    ∃ fd ∉ world.descriptors.keys, ∃ pid ∉ world.processes.keys, ∃ session : Session,
      session.number = world.spawned ∧ session.masterFd = fd ∧ session.pid = pid ∧
      termSpawn world cfg out answers =
        ({ world with
            sessions := session :: world.sessions
            seq := world.seq + 1
            descriptors := world.descriptors.insert fd (some world.spawned)
            processes := world.processes.insert pid ⟨some world.spawned, true, false⟩
            spawned := world.spawned + 1 }, .ok session) := by
  unfold termSpawn
  cases cfg with
  | none => exact .inl ⟨_, rfl⟩
  | some cfg =>
    dsimp only
    split
    · exact .inl ⟨_, rfl⟩
    · cases answers.openpt with
      | error errno => exact .inl ⟨_, rfl⟩
      | ok choice =>
        have fdFree := freeNumber_free 0 world.descriptors.keys choice
        have closed := erase_insert (some world.spawned) fdFree
        cases answers.slave with
        | error errno => exact .inl ⟨-(errno : Int), by simp only [closed]⟩
        | ok slave =>
          cases answers.fork with
          | error errno => exact .inl ⟨-(errno : Int), by simp only [closed]⟩
          | ok other =>
            have pidFree := freeNumber_free 1 world.processes.keys other
            have waited := erase_insert ⟨some world.spawned, true, false⟩ pidFree
            cases answers.memory with
            | true => exact .inr ⟨_, fdFree, _, pidFree, _, rfl, rfl, rfl, rfl⟩
            | false =>
              exact .inl ⟨enomem, by simp only [closed, waited, Bool.false_eq_true, if_false]⟩

/-- What a close does: signals and a wait, the `close`, and the removal from the registry. -/
theorem termClose_cases (world : World) (s : Session) (dies : Bool) :
    ∃ signalled,
      Passes (if 0 < s.pid then (world.kill s.number s.pid).kill s.number s.pid else world)
        signalled ∧
      (termClose world (some s) dies).1 =
        { (if 0 ≤ s.masterFd then signalled.closeFd s.number s.masterFd.toNat else signalled) with
          sessions := signalled.sessions.eraseP fun node => node.id == s.id } := by
  have waited : ∀ world : World, ∀ pid,
      Passes world ((if dies then world.ends pid else world).waitpid pid).1 := by
    intro world pid
    cases dies with
    | true => exact (ends_passes world pid).trans (waitpid_passes _ pid)
    | false => exact waitpid_passes world pid
  refine ⟨if 0 < s.pid then
      let killed := (world.kill s.number s.pid).kill s.number s.pid
      ((if dies then killed.ends s.pid else killed).waitpid s.pid).1
    else world, ?_, ?_⟩
  · split
    · exact waited _ s.pid
    · exact .refl world
  · unfold termClose
    by_cases held : 0 ≤ s.masterFd
    · simp only [if_pos held]
      rfl
    · simp only [if_neg held]

/-! ## Leases -/

/-- Copies are made, dropped and closed. -/
theorem Tracked.copies {world : World} (tracked : Tracked world) {sessions handles : List Session}
    (copied : ∀ s ∈ sessions ++ handles, ∃ old ∈ world.sessions ++ world.handles,
      old.number = s.number ∧ old.pid = s.pid ∧ (0 ≤ s.masterFd → old.masterFd = s.masterFd)) :
    Tracked { world with sessions := sessions, handles := handles } where
  fds := by
    refine tracked.fds.fewer ?_
    rintro number fd ⟨s, found, rfl, same⟩
    obtain ⟨old, member, number, -, master⟩ := copied s found
    exact ⟨old, member, number, (master (by omega)).trans same⟩
  pids := by
    refine tracked.pids.fewer ?_
    rintro number pid ⟨s, found, rfl, same⟩
    obtain ⟨old, member, number, pid, -⟩ := copied s found
    exact ⟨old, member, number, pid.trans same⟩

/-- Processes end and are waited for. -/
theorem Tracked.passes {world later : World} (tracked : Tracked world)
    (passes : Passes world later) : Tracked later := by
  obtain ⟨processes, reaped, rfl, kept⟩ := passes
  exact ⟨tracked.fds, kept _ _ tracked.pids⟩

/-- A signal by itself changes nothing. -/
theorem Tracked.kill {world : World} (tracked : Tracked world) (number pid : Nat) :
    Tracked (world.kill number pid) := ⟨tracked.fds, tracked.pids⟩

/-- A descriptor is closed that nobody else has. -/
theorem Tracked.closeFd {world : World} (tracked : Tracked world) {number fd : Nat}
    (note : FdNoted world number fd)
    (nobody : world.descriptors.lookup fd = none ∨
      world.descriptors.lookup fd = some (some number)) :
    Tracked (world.closeFd number fd) where
  fds := by
    refine tracked.fds.giveBackNoted note nobody (AList.lookup_erase _ _) ?_
    exact fun other elsewhere => AList.lookup_erase_ne elsewhere
  pids := tracked.pids

/-- A session is spawned. -/
theorem Tracked.spawn {world : World} (tracked : Tracked world) {fd pid : Nat}
    (fdFree : fd ∉ world.descriptors.keys) (pidFree : pid ∉ world.processes.keys)
    {session : Session} (number : session.number = world.spawned)
    (master : session.masterFd = fd) (process : session.pid = pid) (seq : UInt64) :
    Tracked { world with
      sessions := session :: world.sessions
      seq := seq
      descriptors := world.descriptors.insert fd (some world.spawned)
      processes := world.processes.insert pid ⟨some world.spawned, true, false⟩
      spawned := world.spawned + 1
      handles := world.handles ++ [session] } := by
  have listed : ∀ s ∈ (session :: world.sessions) ++ (world.handles ++ [session]),
      s = session ∨ s ∈ world.sessions ++ world.handles := by
    intro s found
    simp only [List.mem_append, List.mem_cons, List.not_mem_nil, or_false] at found ⊢
    tauto
  constructor
  · refine tracked.fds.lease (AList.lookup_eq_none.mpr fdFree) (AList.lookup_insert _)
      (fun other elsewhere => AList.lookup_insert_ne elsewhere) ?_
    rintro tenant other ⟨s, found, rfl, same⟩
    rcases listed s found with rfl | old
    · exact .inr ⟨number, by omega⟩
    · exact .inl ⟨s, old, rfl, same⟩
  · have free : world.processOwner pid = none := by
      rw [World.processOwner, AList.lookup_eq_none.mpr pidFree, Option.map_none]
    refine tracked.pids.lease free ?_ ?_ ?_
    · simp only [World.processOwner, AList.lookup_insert, Option.map_some]
    · intro other elsewhere
      simp only [World.processOwner, AList.lookup_insert_ne elsewhere]
    · rintro tenant other ⟨s, found, rfl, same⟩
      rcases listed s found with rfl | old
      · exact .inr ⟨number, same.symm.trans process⟩
      · exact .inl ⟨s, old, rfl, same⟩

/-- A status query waits for a process or does nothing. -/
theorem termStatus_passes (world : World) (s : Option Session) (st : Bool) :
    Passes world (termStatus world s st).1 := by
  unfold termStatus
  cases s with
  | none => exact .refl world
  | some s =>
    dsimp only
    split
    · exact .refl world
    · split
      · exact .refl world
      · split
        · exact waitpid_passes world _
        · exact .refl world

/-- More copies of the same sessions. -/
theorem Tracked.more {world : World} (tracked : Tracked world) {copies : List Session}
    (copied : ∀ s ∈ copies, s ∈ world.sessions ++ world.handles) :
    Tracked { world with handles := world.handles ++ copies } := by
  refine tracked.copies ?_
  intro s found
  rw [← List.append_assoc] at found
  rcases List.mem_append.mp found with old | new
  · exact ⟨s, old, rfl, rfl, fun _ => rfl⟩
  · exact ⟨s, copied s new, rfl, rfl, fun _ => rfl⟩

/-- Whatever happens that is no close: the leases are kept, and no close reaches anything. -/
theorem step_other {world : World} (tracked : Tracked world) {action : Action}
    (other : ∀ handle dies, action ≠ .close handle dies) :
    Tracked (step world action) ∧ (step world action).closes = world.closes ∧
      (step world action).signals = world.signals := by
  have passed : ∀ {later}, Passes world later →
      Tracked later ∧ later.closes = world.closes ∧ later.signals = world.signals := by
    intro later passes
    have kept := tracked.passes passes
    obtain ⟨processes, reaped, rfl, -⟩ := passes
    exact ⟨kept, rfl, rfl⟩
  cases action with
  | spawn cfg out answers =>
    rw [step]
    rcases termSpawn_cases world cfg out answers with
      ⟨rc, same⟩ | ⟨fd, fdFree, pid, pidFree, session, number, master, process, same⟩
    · rw [same]
      exact ⟨tracked, rfl, rfl⟩
    · rw [same]
      exact ⟨tracked.spawn fdFree pidFree number master process _, rfl, rfl⟩
  | list out cap count =>
    rw [step]
    unfold termListSessions
    cases count with
    | false => exact ⟨tracked, rfl, rfl⟩
    | true =>
      refine ⟨tracked.more ?_, rfl, rfl⟩
      intro s found
      cases out with
      | false => cases found
      | true => exact List.mem_append_left _ (List.mem_of_mem_take found)
  | copy handle =>
    refine ⟨tracked.more ?_, rfl, rfl⟩
    intro s found
    exact List.mem_append_right _ (List.mem_of_getElem? (Option.mem_toList.mp found))
  | status handle st => exact passed (termStatus_passes world _ st)
  | close handle dies => exact absurd rfl (other handle dies)
  | opens choice =>
    let fd := freeNumber 0 world.descriptors.keys choice
    have free : world.descriptors.lookup fd = none :=
      AList.lookup_eq_none.mpr (freeNumber_free 0 world.descriptors.keys choice)
    refine ⟨⟨tracked.fds.other fd (by simp [free]) ?_ ?_, tracked.pids⟩, rfl, rfl⟩
    · simp [step, fd]
    · exact fun other elsewhere => AList.lookup_insert_ne elsewhere
  | shuts fd =>
    rw [step]
    split
    · rename_i mine
      refine ⟨⟨tracked.fds.other fd (by simp [mine]) (by simp) ?_, tracked.pids⟩, rfl, rfl⟩
      exact fun other elsewhere => AList.lookup_erase_ne elsewhere
    · exact ⟨tracked, rfl, rfl⟩
  | starts choice child =>
    let pid := freeNumber 1 world.processes.keys choice
    have free : world.processOwner pid = none := by
      rw [World.processOwner, AList.lookup_eq_none.mpr (freeNumber_free 1 _ choice),
        Option.map_none]
    refine ⟨⟨tracked.fds, tracked.pids.other pid (by simp [free]) ?_ ?_⟩, rfl, rfl⟩
    · simp [step, World.processOwner, pid]
    · exact fun other elsewhere => congrArg _ (AList.lookup_insert_ne elsewhere)
  | ends pid => exact passed (ends_passes world pid)
  | waits pid => exact passed (collect_passes world pid)

/-- What a close reaches. -/
theorem step_close_reaches {world : World} {handle : Nat} {s : Session}
    (found : world.handles[handle]? = some s) (dies : Bool) :
    let fd : Reach := ⟨s.number, world.descriptors.lookup s.masterFd.toNat⟩
    let process : Reach := ⟨s.number, world.processOwner s.pid⟩
    (step world (.close handle dies)).closes =
        (if 0 ≤ s.masterFd then [fd] else []) ++ world.closes ∧
      (step world (.close handle dies)).signals =
        (if 0 < s.pid then [process, process] else []) ++ world.signals := by
  obtain ⟨signalled, ⟨processes, reaped, same, -⟩, closed⟩ := termClose_cases world s dies
  have after : step world (.close handle dies) =
      { (termClose world (some s) dies).1 with
        handles := (step world (.close handle dies)).handles } := by
    rw [step, found]
    rfl
  rw [after, closed, same]
  constructor
  · split
    · split <;> rfl
    · split <;> rfl
  · split
    · split <;> rfl
    · split <;> rfl

/-- A close that affects nobody else keeps the leases. -/
theorem step_close_tracked {world : World} (tracked : Tracked world) {handle : Nat} {dies : Bool}
    (unused : ClosesUnused world (.close handle dies)) :
    Tracked (step world (.close handle dies)) := by
  rw [step]
  cases found : world.handles[handle]? with
  | none => exact tracked
  | some s =>
    obtain ⟨signalled, passes, closed⟩ := termClose_cases world s dies
    have killed : Tracked
        (if 0 < s.pid then (world.kill s.number s.pid).kill s.number s.pid else world) := by
      split
      · exact (tracked.kill _ _).kill _ _
      · exact tracked
    have middle : Tracked signalled := killed.passes passes
    obtain ⟨processes, reaped, same, -⟩ := passes
    have descriptors : signalled.descriptors = world.descriptors := by
      rw [same]
      split <;> rfl
    have held : signalled.handles = world.handles := by
      rw [same]
      split <;> rfl
    have member : s ∈ world.sessions ++ world.handles :=
      List.mem_append_right _ (List.mem_of_getElem? found)
    have listed : s ∈ signalled.sessions ++ signalled.handles :=
      List.mem_append_right _ (held ▸ List.mem_of_getElem? found)
    have released : Tracked
        (if 0 ≤ s.masterFd then signalled.closeFd s.number s.masterFd.toNat else signalled) := by
      split
      · rename_i has
        have number : s.masterFd = (s.masterFd.toNat : Int) := (Int.toNat_of_nonneg has).symm
        refine middle.closeFd ⟨s, listed, rfl, number⟩ ?_
        rw [descriptors]
        exact (tracked.fds.nobody_iff ⟨s, member, rfl, number⟩).mpr ((unused s found).1 has)
      · exact middle
    have copies : ∀ later, later = signalled.closeFd s.number s.masterFd.toNat ∨
        later = signalled → later.sessions ++ later.handles =
          signalled.sessions ++ signalled.handles := by
      rintro later (rfl | rfl) <;> rfl
    show Tracked { (termClose world (some s) dies).1 with
      handles := world.handles.set handle
        { s with masterFd := if 0 ≤ s.masterFd then -1 else s.masterFd, state := .closed } }
    rw [closed]
    refine released.copies ?_
    intro copy copied
    rw [copies _ (ite_eq_or_eq _ _ _), held]
    rcases List.mem_append.mp copied with node | handled
    · exact ⟨copy, List.mem_append_left _ (List.mem_of_mem_eraseP node), rfl, rfl, fun _ => rfl⟩
    · rcases List.mem_or_eq_of_mem_set handled with old | rfl
      · exact ⟨copy, List.mem_append_right _ old, rfl, rfl, fun _ => rfl⟩
      · refine ⟨s, List.mem_append_right _ (List.mem_of_getElem? found), rfl, rfl, ?_⟩
        intro has
        split at has
        · exact absurd has (show ¬ (0 : Int) ≤ -1 by decide)
        · contradiction

/-! ## Runs -/

/-- At the start nothing is leased. -/
theorem start_tracked : Tracked .start :=
  ⟨leased_start.fewer (fun _ _ => by simp [FdNoted, World.start]),
    leased_start.fewer (fun _ _ => by simp [PidNoted, World.start])⟩

/-- An action that affects nobody else keeps the leases. -/
theorem step_tracked {world : World} (tracked : Tracked world) {action : Action}
    (unused : ClosesUnused world action) : Tracked (step world action) := by
  by_cases closes : ∃ handle dies, action = .close handle dies
  · obtain ⟨handle, dies, rfl⟩ := closes
    exact step_close_tracked tracked unused
  · exact (step_other tracked fun handle dies same => closes ⟨handle, dies, same⟩).1

/-- An action is no close of a copy, or it is one. -/
theorem step_reaches {world : World} (tracked : Tracked world) (action : Action) :
    ((step world action).closes = world.closes ∧ (step world action).signals = world.signals ∧
      ClosesOpen world action) ∨
    ∃ handle dies s, action = .close handle dies ∧ world.handles[handle]? = some s := by
  by_cases closes : ∃ handle dies, action = .close handle dies
  · obtain ⟨handle, dies, rfl⟩ := closes
    cases found : world.handles[handle]? with
    | none =>
      have same : step world (.close handle dies) = world := by rw [step, found]; rfl
      refine .inl ⟨by rw [same], by rw [same], ?_⟩
      intro s held
      rw [found] at held
      cases held
    | some s => exact .inr ⟨handle, dies, s, rfl, found⟩
  · have other : ∀ handle dies, action ≠ .close handle dies :=
      fun handle dies same => closes ⟨handle, dies, same⟩
    obtain ⟨-, closes, signals⟩ := step_other tracked other
    refine .inl ⟨closes, signals, ?_⟩
    cases action with
    | close handle dies => exact absurd rfl (other handle dies)
    | _ => trivial

/-- What was reached before and is reached now. -/
theorem forall_reached {condition : Prop} [Decidable condition] {now before : List Reach}
    {good : Reach → Prop} :
    (∀ reach ∈ (if condition then now else []) ++ before, good reach) ↔
      (condition → ∀ reach ∈ now, good reach) ∧ ∀ reach ∈ before, good reach := by
  by_cases holds : condition
  · simp [holds, or_imp, forall_and]
  · simp [holds]

/-- One action reaches only the session's own exactly when it closes an open session. -/
theorem reachesOwn_step_iff {world : World} (tracked : Tracked world) (action : Action) :
    ReachesOwn (step world action) ↔ ReachesOwn world ∧ ClosesOpen world action := by
  rcases step_reaches tracked action with
    ⟨closes, signals, opened⟩ | ⟨handle, dies, s, rfl, found⟩
  · have closed : (step world action).closed = world.closed :=
      congrArg (List.map Reach.number) closes
    constructor
    · intro own
      exact ⟨⟨closed ▸ own.once, closes ▸ own.closes, signals ▸ own.signals⟩, opened⟩
    · rintro ⟨own, -⟩
      exact ⟨closed.symm ▸ own.once, closes.symm ▸ own.closes, signals.symm ▸ own.signals⟩
  · obtain ⟨closes, signals⟩ := step_close_reaches found dies
    have member : s ∈ world.sessions ++ world.handles :=
      List.mem_append_right _ (List.mem_of_getElem? found)
    have fd : 0 ≤ s.masterFd → (world.descriptors.lookup s.masterFd.toNat =
        some (some s.number) ↔ s.number ∉ world.closed) := fun has =>
      tracked.fds.held_iff ⟨s, member, rfl, (Int.toNat_of_nonneg has).symm⟩
    have process : world.processOwner s.pid = some (some s.number) ↔ s.number ∉ world.reaped :=
      tracked.pids.held_iff ⟨s, member, rfl, rfl⟩
    have once : (step world (.close handle dies)).closed.Nodup ↔
        (0 ≤ s.masterFd → s.number ∉ world.closed) ∧ world.closed.Nodup := by
      rw [World.closed, closes]
      by_cases has : 0 ≤ s.masterFd
      · rw [if_pos has, List.singleton_append, List.map_cons, List.nodup_cons]
        exact and_congr_left' (imp_iff_right has).symm
      · rw [if_neg has, List.nil_append]
        exact (and_iff_right fun held => absurd held has).symm
    have split : ∀ later, ReachesOwn later ↔ later.closed.Nodup ∧
        (∀ reach ∈ later.closes, reach.owner = some (some reach.number)) ∧
        ∀ reach ∈ later.signals, reach.owner = some (some reach.number) :=
      fun later => ⟨fun own => ⟨own.once, own.closes, own.signals⟩,
        fun own => ⟨own.1, own.2.1, own.2.2⟩⟩
    have opened : ClosesOpen world (.close handle dies) ↔
        (0 ≤ s.masterFd → s.number ∉ world.closed) ∧ (0 < s.pid → s.number ∉ world.reaped) := by
      simp only [ClosesOpen, found, Option.some.injEq, forall_eq']
    rw [split, split, once, closes, signals, forall_reached, forall_reached, opened]
    simp only [List.mem_cons, List.not_mem_nil, or_false, or_self, forall_eq, process,
      forall_congr' fd]
    constructor
    · rintro ⟨⟨fd, distinct⟩, ⟨-, closes⟩, pid, signals⟩
      exact ⟨⟨distinct, closes, signals⟩, fd, pid⟩
    · rintro ⟨⟨distinct, closes, signals⟩, fd, pid⟩
      exact ⟨⟨fd, distinct⟩, ⟨fd, closes⟩, pid, signals⟩

/-- It reaches nobody else exactly when the number is unused otherwise. -/
theorem reachesNoOther_step_iff {world : World} (tracked : Tracked world) (action : Action) :
    ReachesNoOther (step world action) ↔ ReachesNoOther world ∧ ClosesUnused world action := by
  rcases step_reaches tracked action with
    ⟨closes, signals, opened⟩ | ⟨handle, dies, s, rfl, found⟩
  · rw [ReachesNoOther, closes, signals]
    exact (and_iff_left opened.unused).symm
  · obtain ⟨closes, signals⟩ := step_close_reaches found dies
    have member : s ∈ world.sessions ++ world.handles :=
      List.mem_append_right _ (List.mem_of_getElem? found)
    have fd := fun has : 0 ≤ s.masterFd =>
      have note : FdNoted world s.number s.masterFd.toNat :=
        ⟨s, member, rfl, (Int.toNat_of_nonneg has).symm⟩
      tracked.fds.nobody_iff note
    have note : PidNoted world s.number s.pid := ⟨s, member, rfl, rfl⟩
    have process := tracked.pids.nobody_iff note
    have unused : ClosesUnused world (.close handle dies) ↔
        (0 ≤ s.masterFd → s.number ∈ world.closed →
          world.descriptors.lookup s.masterFd.toNat = none) ∧
        (0 < s.pid → s.number ∈ world.reaped → world.processOwner s.pid = none) := by
      simp only [ClosesUnused, found, Option.some.injEq, forall_eq', World.processOwner,
        Option.map_eq_none_iff]
    have split : ∀ later, ReachesNoOther later ↔
        (∀ reach ∈ later.closes, reach.owner = none ∨ reach.owner = some (some reach.number)) ∧
        ∀ reach ∈ later.signals, reach.owner = none ∨ reach.owner = some (some reach.number) :=
      fun later => by simp only [ReachesNoOther, List.mem_append, or_imp, forall_and]
    rw [split, split, closes, signals, forall_reached, forall_reached, unused]
    simp only [List.mem_cons, List.not_mem_nil, or_false, or_self, forall_eq, process,
      forall_congr' fd]
    exact and_and_and_comm.trans and_comm

/-- A property that every action keeps exactly when it meets a condition holds along the runs whose
actions all meet it. -/
theorem reaches_iff {good : World → Prop} {ok : World → Action → Prop} (initial : good .start)
    (unused : ∀ world action, ok world action → ClosesUnused world action)
    (decides : ∀ world action, Tracked world →
      (good (step world action) ↔ good world ∧ ok world action)) (actions : List Action) :
    AllStates step good .start actions ↔ AllSteps step ok .start actions := by
  have usually : AllSteps step (fun _ _ => True) World.start actions :=
    allSteps_of_forall (fun _ _ => trivial) _ _
  have sound : ∀ world, Tracked world ∧ good world → good world := fun world holds => holds.2
  refine allStates_iff_allSteps sound ?_ ?_ ⟨start_tracked, initial⟩ usually
  · rintro world action ⟨tracked, holds⟩ met
    exact ⟨step_tracked tracked (unused world action met),
      (decides world action tracked).mpr ⟨holds, met⟩⟩
  · rintro world action ⟨tracked, -⟩ - missed holds
    exact missed ((decides world action tracked).mp holds).2

/-- In a run of spawns, lists, status queries and closes, and of whatever else takes and frees
descriptor numbers and pids meanwhile: every master is closed at most once, and closes signal only
the session's own process until it is waited for, exactly when no copy is closed that still has the
descriptor of a session closed before or that is of a session whose process was waited for; and
nobody else is affected exactly when nothing else has the number whenever one is. -/
theorem close_reaches_iff (actions : List Action) :
    (AllStates step ReachesOwn .start actions ↔ AllSteps step ClosesOpen .start actions) ∧
    (AllStates step ReachesNoOther .start actions ↔ AllSteps step ClosesUnused .start actions) := by
  constructor
  · refine reaches_iff ⟨List.nodup_nil, by simp [World.start], by simp [World.start]⟩ ?_ ?_ actions
    · exact fun world action opened => opened.unused
    · exact fun world action tracked => reachesOwn_step_iff tracked action
  · refine reaches_iff (by simp [ReachesNoOther, World.start]) ?_ ?_ actions
    · exact fun world action unused => unused
    · exact fun world action tracked => reachesNoOther_step_iff tracked action

/-- A shell is spawned, with the numbers that the system chooses. -/
def spawnShell (fd pid : Nat) : Action :=
  .spawn (some ⟨none, none, 0, 0⟩) true
    ⟨.ok fd, .ok (), .ok (), .ok (lit "/dev/pts/0"), .ok pid, true⟩

/-- A session is listed and closed, the next one gets its numbers, and the listed copy is closed. -/
def secondCopy : List Action :=
  [spawnShell 3 100, .list true 1 true, .close 0 true, spawnShell 3 100, .close 1 false]

/-- The shell exits, its status is asked, its pid goes to another program, and it is closed. -/
def exitedShell : List Action :=
  [spawnShell 3 100, .ends 100, .status 0 true, .starts 100 false, .close 0 false]

/-- The first kills the next session and closes its master, the second kills the other program. -/
theorem next_session_closed :
    (¬ AllStates step ReachesOwn .start secondCopy ∧
      ¬ AllStates step ReachesNoOther .start secondCopy) ∧
    ¬ AllStates step ReachesOwn .start exitedShell ∧
      ¬ AllStates step ReachesNoOther .start exitedShell := by
  have next : ¬ ReachesNoOther (run step .start secondCopy) := by decide +kernel
  have stranger : ¬ ReachesNoOther (run step .start exitedShell) := by decide +kernel
  exact ⟨⟨fun own => next own.last.noOther, fun unharmed => next unharmed.last⟩,
    fun own => stranger own.last.noOther, fun unharmed => stranger unharmed.last⟩

end HwrunOs.Terminal
