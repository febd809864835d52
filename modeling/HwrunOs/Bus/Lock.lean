import HwrunOs.Library.Sections

/-!
# Locks and guards

`hwlock.c`: a locker is a readers-writer lock or a mutex, and all its calls do nothing until
`hw_locker_enable_parallel` arms them, which `main` does after the boot chain. `HW_RDLOCK_GUARD` and
`HW_WRLOCK_GUARD` run a section between a lock and an unlock call, and skip it when the lock call
returns a negative number. A guard whose section is open when the lockers are armed unlocks what it
has not locked.
-/

namespace HwrunOs.Bus

open HwrunOs.Runs HwrunOs.Sections

variable {τ σ κ : Type*} [DecidableEq τ]

/-! ## Lockers -/

/-- `hw_lock_kind_t`. -/
inductive LockKind where
  /-- `HWLOCK_RW`. -/
  | rw
  /-- `HWLOCK_MTX`. -/
  | mtx
  deriving DecidableEq

/-- `hw_locker_t`, with the threads that hold its pthread lock. -/
structure Locker (τ : Type*) where
  /-- The kind. -/
  kind : LockKind
  /-- The thread that holds the mutex, or the lock for writing. -/
  writer : Option τ
  /-- The threads that hold the lock for reading. -/
  readers : List τ

/-- What the environment decides about a call of pthread: the number that it returns, if it does
not take the lock, and the value of `errno`, which it does not set. -/
structure Attempt where
  /-- 0 when the lock is taken as soon as it is free. -/
  rc : Nat
  /-- `errno`. -/
  errno : Nat

/-- `locker_active`. -/
def lockerActive (armed : Bool) : Bool := armed

/-- `hw_locker_init`, when pthread has the memory. -/
def hwLockerInit (kind : LockKind) : Locker τ := ⟨kind, none, []⟩

/-- The pthread lock is taken; none while the thread has to wait. -/
def Locker.take (locker : Locker τ) (thread : τ) : Mode → Option (Locker τ)
  | .shared =>
    if locker.writer = none then some { locker with readers := thread :: locker.readers } else none
  | .exclusive =>
    if locker.writer = none ∧ locker.readers = [] then some { locker with writer := some thread }
    else none

/-- The pthread lock is given back; none when the thread does not hold it, which is undefined. -/
def Locker.giveBack (locker : Locker τ) (thread : τ) : Option (Locker τ) :=
  if locker.writer = some thread then some { locker with writer := none }
  else if thread ∈ locker.readers then
    some { locker with readers := locker.readers.erase thread }
  else none

/-- How a section of a mode holds the lock: a mutex is the same for both. -/
def LockKind.mode : LockKind → Mode → Mode
  | .rw, mode => mode
  | .mtx, _ => .exclusive

/-- `hw_locker_rdlock` for a shared section and `hw_locker_wrlock` for an exclusive one, with the
result; none while the thread waits. -/
def hwLockerLock (armed : Bool) (locker : Locker τ) (thread : τ) (mode : Mode)
    (attempt : Attempt) : Option (Locker τ × Int) :=
  if !lockerActive armed then some (locker, 0)
  else if attempt.rc = 0 then
    (locker.take thread (locker.kind.mode mode)).map fun taken => (taken, 0)
  else some (locker, -attempt.errno)

/-- `hw_locker_unlock`; none when the thread does not hold the lock. -/
def hwLockerUnlock (armed : Bool) (locker : Locker τ) (thread : τ) : Option (Locker τ) :=
  if !lockerActive armed then some locker else locker.giveBack thread

/-! ## Guarded sections -/

/-- The lockers of the process are armed or not, and threads are in the sections of one of them. -/
structure LockWorld (τ σ κ : Type*) where
  /-- `g_locker_armed`. -/
  armed : Bool
  /-- The locker. -/
  locker : Locker τ
  /-- The threads and what they share. -/
  world : World τ σ κ
  /-- A lock was unlocked that its thread did not hold. -/
  misused : Bool

/-- A process before its first section. -/
def LockWorld.start (kind : LockKind) (start : Whole τ σ κ) : LockWorld τ σ κ :=
  ⟨false, hwLockerInit kind, start.world, false⟩

/-- What a thread does next. -/
inductive LockAction (τ σ κ : Type*) where
  /-- `hw_locker_enable_parallel`. -/
  | enableParallel
  /-- The lock call of a guard. -/
  | lock (thread : τ) (opened : Section σ κ) (attempt : Attempt)
  /-- The next part of the guarded section. -/
  | go (thread : τ)
  /-- The unlock call of a guard. -/
  | unlock (thread : τ)

/-- The process after a step; a thread that waits tries again. -/
def lockStep (state : LockWorld τ σ κ) : LockAction τ σ κ → LockWorld τ σ κ
  | .enableParallel => { state with armed := true }
  | .lock thread opened attempt =>
    match state.world.places thread with
    | .inside _ _ => state
    | .outside =>
      match hwLockerLock state.armed state.locker thread opened.mode attempt with
      | none => state
      | some (locker, result) =>
        -- `_hwlk >= 0`: a negative result skips the section without a word.
        if 0 ≤ result then
          { state with locker := locker, world := state.world.enter thread opened }
        else state
  | .go thread => { state with world := state.world.go thread }
  | .unlock thread =>
    match state.world.places thread with
    | .inside _ [] =>
      match hwLockerUnlock state.armed state.locker thread with
      | some locker => { state with locker := locker, world := state.world.leave thread }
      | none => { state with misused := true, world := state.world.leave thread }
    | _ => state

/-! ## What is asked of the process -/

/-- The lockers are armed while no section is open, before that there is one thread, and `errno` is
not zero when a lock call fails. -/
def LockDiscipline (state : LockWorld τ σ κ) : LockAction τ σ κ → Prop
  | .enableParallel => state.world.Quiet
  | .lock _ _ attempt =>
    (state.armed = false → state.world.Quiet) ∧ (attempt.rc ≠ 0 → attempt.errno ≠ 0)
  | _ => True

/-- A thread in a section that takes the lock for itself is alone. -/
def LockWorld.Exclusive (state : LockWorld τ σ κ) : Prop :=
  ∀ thread mode, state.world.modeOf thread = some mode → state.locker.kind.mode mode = .exclusive →
    ∀ other, other ≠ thread → state.world.modeOf other = none

/-- A thread waits for the lock only while another is in a section. -/
def LockWorld.Lively (state : LockWorld τ σ κ) : Prop :=
  ∀ thread mode attempt,
    hwLockerLock state.armed state.locker thread mode attempt = none →
    ∃ other, state.world.modeOf other ≠ none

/-- What the guards are for: sections are kept apart, no lock is unlocked by a thread that does not
hold it, and nobody waits for nothing. -/
structure LockWorld.Guarded (state : LockWorld τ σ κ) : Prop where
  /-- Sections are kept apart. -/
  exclusive : state.Exclusive
  /-- No unlock was undefined. -/
  proper : state.misused = false
  /-- Nobody waits for nothing. -/
  lively : state.Lively

/-! ## Who holds the lock -/

/-- A lock is held by the threads that have a mode, each in its mode. -/
structure Locker.HeldBy (locker : Locker τ) (claims : τ → Option Mode) : Prop where
  /-- The one that holds it for itself. -/
  writer : ∀ thread, locker.writer = some thread ↔ claims thread = some .exclusive
  /-- Those that share it. -/
  reader : ∀ thread, thread ∈ locker.readers ↔ claims thread = some .shared
  /-- Each has it once. -/
  once : locker.readers.Nodup
  /-- It is not held in both ways. -/
  apart : locker.writer = none ∨ locker.readers = []

omit [DecidableEq τ] in
/-- A lock that nobody claims is free, and the other way around. -/
theorem Locker.HeldBy.free_iff {locker : Locker τ} {claims : τ → Option Mode}
    (held : locker.HeldBy claims) :
    locker.writer = none ∧ locker.readers = [] ↔ ∀ thread, claims thread = none := by
  constructor
  · rintro ⟨free, unread⟩ thread
    cases claimed : claims thread with
    | none => rfl
    | some mode =>
      cases mode with
      | shared =>
        have reads := (held.reader thread).mpr claimed
        rw [unread] at reads
        cases reads
      | exclusive =>
        have writes := (held.writer thread).mpr claimed
        rw [free] at writes
        cases writes
  · intro nobody
    constructor
    · apply Option.eq_none_iff_forall_ne_some.mpr
      intro thread writes
      rw [held.writer, nobody] at writes
      cases writes
    · apply List.eq_nil_iff_forall_not_mem.mpr
      intro thread reads
      rw [held.reader, nobody] at reads
      cases reads

omit [DecidableEq τ] in
/-- A thread that claims a lock for itself is the only one. -/
theorem Locker.HeldBy.alone {locker : Locker τ} {claims : τ → Option Mode}
    (held : locker.HeldBy claims) {thread : τ} (claimed : claims thread = some .exclusive)
    {other : τ} (different : other ≠ thread) : claims other = none := by
  have writes := (held.writer thread).mpr claimed
  have unread : locker.readers = [] := by
    apply held.apart.resolve_left
    rw [writes]
    simp
  cases theirs : claims other with
  | none => rfl
  | some mode =>
    cases mode with
    | shared =>
      have reads := (held.reader other).mpr theirs
      rw [unread] at reads
      cases reads
    | exclusive =>
      have alsoWrites := (held.writer other).mpr theirs
      rw [writes] at alsoWrites
      exact absurd (Option.some.inj alsoWrites).symm different

omit [DecidableEq τ] in
/-- A lock is shared while nobody writes. -/
theorem Locker.take_shared {locker taken : Locker τ} {thread : τ} :
    locker.take thread .shared = some taken ↔
      locker.writer = none ∧ taken = { locker with readers := thread :: locker.readers } := by
  unfold take
  by_cases free : locker.writer = none <;> simp [free, eq_comm]

omit [DecidableEq τ] in
/-- A lock is taken for oneself while nobody holds it. -/
theorem Locker.take_exclusive {locker taken : Locker τ} {thread : τ} :
    locker.take thread .exclusive = some taken ↔
      (locker.writer = none ∧ locker.readers = []) ∧
        taken = { locker with writer := some thread } := by
  unfold take
  by_cases free : locker.writer = none ∧ locker.readers = [] <;> simp [free, eq_comm]

omit [DecidableEq τ] in
/-- A thread has to wait only for a lock that is held. -/
theorem Locker.take_free {locker : Locker τ} (free : locker.writer = none ∧ locker.readers = [])
    (thread : τ) (mode : Mode) : locker.take thread mode ≠ none := by
  cases mode <;> simp [take, free]

/-- A thread that takes the lock holds it. -/
theorem Locker.HeldBy.take {locker taken : Locker τ} {claims : τ → Option Mode}
    (held : locker.HeldBy claims) {thread : τ} (unclaimed : claims thread = none) {mode : Mode}
    (takes : locker.take thread mode = some taken) :
    taken.HeldBy (Function.update claims thread (some mode)) := by
  cases mode with
  | shared =>
    obtain ⟨free, rfl⟩ := Locker.take_shared.mp takes
    constructor
    · intro other
      by_cases same : other = thread
      · rw [same, Function.update_self]
        simp [free]
      · rw [Function.update_of_ne same]
        exact held.writer other
    · intro other
      rw [List.mem_cons]
      by_cases same : other = thread
      · rw [same, Function.update_self]
        simp
      · rw [Function.update_of_ne same, ← held.reader other]
        exact or_iff_right same
    · apply List.nodup_cons.mpr
      refine ⟨?_, held.once⟩
      intro already
      rw [held.reader, unclaimed] at already
      cases already
    · exact .inl free
  | exclusive =>
    obtain ⟨free, rfl⟩ := Locker.take_exclusive.mp takes
    have nobody := held.free_iff.mp free
    constructor
    · intro other
      by_cases same : other = thread
      · rw [same, Function.update_self]
        simp
      · rw [Function.update_of_ne same, nobody other]
        simp [Ne.symm same]
    · intro other
      rw [free.2]
      by_cases same : other = thread
      · rw [same, Function.update_self]
        simp
      · rw [Function.update_of_ne same, nobody other]
        simp
    · exact held.once
    · exact .inr free.2

/-- A thread that holds the lock gives it back. -/
theorem Locker.HeldBy.giveBack {locker : Locker τ} {claims : τ → Option Mode}
    (held : locker.HeldBy claims) {thread : τ} (claimed : claims thread ≠ none) :
    ∃ left, locker.giveBack thread = some left ∧
      left.kind = locker.kind ∧ left.HeldBy (Function.update claims thread none) := by
  unfold Locker.giveBack
  by_cases writes : locker.writer = some thread
  · rw [if_pos writes]
    refine ⟨_, rfl, rfl, ?_⟩
    constructor
    · intro other
      by_cases same : other = thread
      · rw [same, Function.update_self]
        simp
      · rw [Function.update_of_ne same, ← held.writer other, writes]
        simp [Ne.symm same]
    · intro other
      by_cases same : other = thread
      · have mine := (held.writer thread).mp writes
        rw [same, Function.update_self, held.reader, mine]
        simp
      · rw [Function.update_of_ne same]
        exact held.reader other
    · exact held.once
    · exact .inl rfl
  · have reads : thread ∈ locker.readers := by
      rw [held.reader]
      cases theirs : claims thread with
      | none => exact absurd theirs claimed
      | some mode =>
        cases mode with
        | shared => rfl
        | exclusive => exact absurd ((held.writer thread).mpr theirs) writes
    rw [if_neg writes, if_pos reads]
    refine ⟨_, rfl, rfl, ?_⟩
    constructor
    · intro other
      by_cases same : other = thread
      · rw [same, Function.update_self]
        simp [writes]
      · rw [Function.update_of_ne same]
        exact held.writer other
    · intro other
      rw [held.once.mem_erase_iff]
      by_cases same : other = thread
      · rw [same, Function.update_self]
        simp
      · rw [Function.update_of_ne same, ← held.reader other]
        exact and_iff_right same
    · exact held.once.erase thread
    · exact .inl (held.apart.resolve_right (List.ne_nil_of_mem reads))

/-! ## The invariant -/

/-- How each thread holds the lock for the section that it is in. -/
def LockWorld.claims (state : LockWorld τ σ κ) (thread : τ) : Option Mode :=
  (state.world.modeOf thread).map state.locker.kind.mode

/-- Before the lockers are armed, nothing is locked and there is one thread. -/
structure LockWorld.Single (state : LockWorld τ σ κ) : Prop where
  /-- Nobody holds the lock. -/
  free : state.locker.writer = none ∧ state.locker.readers = []
  /-- At most one thread is in a section. -/
  alone : ∀ thread other, other ≠ thread → state.world.modeOf thread ≠ none →
    state.world.modeOf other = none

/-- What every step of a disciplined process keeps. -/
structure LockWorld.Sound (start : Whole τ σ κ) (state : LockWorld τ σ κ) : Prop where
  /-- The sections are as whole ones. -/
  explained : Explained start state.world
  /-- An armed lock is held by the threads that are in sections. -/
  held : state.armed = true → state.locker.HeldBy state.claims
  /-- Before, there is one thread. -/
  single : state.armed = false → state.Single
  /-- No unlock was undefined. -/
  proper : state.misused = false

omit [DecidableEq τ] in
/-- A thread claims the lock exactly when it is in a section. -/
theorem LockWorld.claims_eq_none {state : LockWorld τ σ κ} {thread : τ} :
    state.claims thread = none ↔ state.world.modeOf thread = none := Option.map_eq_none_iff

omit [DecidableEq τ] in
/-- No thread claims the lock exactly when none is in a section. -/
theorem LockWorld.unclaimed_iff {state : LockWorld τ σ κ} :
    (∀ thread, state.claims thread = none) ↔ state.world.Quiet :=
  forall_congr' fun _ => claims_eq_none.trans World.modeOf_eq_none

/-- The invariant keeps sections apart. -/
theorem LockWorld.Sound.guarded {start : Whole τ σ κ} {state : LockWorld τ σ κ}
    (sound : state.Sound start) : state.Guarded where
  exclusive := by
    intro thread mode opened exclusive other different
    cases armed : state.armed with
    | false =>
      apply (sound.single armed).alone thread other different
      rw [opened]
      simp
    | true =>
      have claimed : state.claims thread = some .exclusive := by
        unfold claims
        rw [opened, Option.map_some, exclusive]
      exact claims_eq_none.mp ((sound.held armed).alone claimed different)
  proper := sound.proper
  lively := by
    intro thread mode attempt waits
    unfold hwLockerLock at waits
    cases armed : state.armed with
    | false => simp [lockerActive, armed] at waits
    | true =>
      by_contra nobody
      have idle : ∀ other, state.claims other = none :=
        fun other => claims_eq_none.mpr (not_not.mp fun opened => nobody ⟨other, opened⟩)
      have free := (sound.held armed).free_iff.mpr idle
      have taken := Locker.take_free free thread (state.locker.kind.mode mode)
      by_cases takes : attempt.rc = 0 <;> simp [lockerActive, armed, takes, taken] at waits

/-! ## Each step -/

/-- What the threads claim after one has entered. -/
theorem LockWorld.claims_enter (state : LockWorld τ σ κ) (locker : Locker τ)
    (same : locker.kind = state.locker.kind) (thread : τ) (opened : Section σ κ) :
    LockWorld.claims { state with locker := locker, world := state.world.enter thread opened } =
      Function.update state.claims thread (some (state.locker.kind.mode opened.mode)) := by
  funext other
  unfold claims
  dsimp only
  rw [World.modeOf_enter, same]
  by_cases entering : other = thread
  · rw [entering, Function.update_self, Function.update_self, Option.map_some]
  · rw [Function.update_of_ne entering, Function.update_of_ne entering]

/-- What the threads claim after one has left. -/
theorem LockWorld.claims_leave (state : LockWorld τ σ κ) (locker : Locker τ)
    (same : locker.kind = state.locker.kind) (thread : τ) :
    LockWorld.claims { state with locker := locker, world := state.world.leave thread } =
      Function.update state.claims thread none := by
  funext other
  unfold claims
  dsimp only
  rw [World.modeOf_leave, same]
  by_cases leaving : other = thread
  · rw [leaving, Function.update_self, Function.update_self, Option.map_none]
  · rw [Function.update_of_ne leaving, Function.update_of_ne leaving]

omit [DecidableEq τ] in
/-- The kind of a locker stays. -/
theorem Locker.take_kind {locker taken : Locker τ} {thread : τ} {mode : Mode}
    (takes : locker.take thread mode = some taken) : taken.kind = locker.kind := by
  cases mode with
  | shared => rw [(Locker.take_shared.mp takes).2]
  | exclusive => rw [(Locker.take_exclusive.mp takes).2]

omit [DecidableEq τ] in
/-- A thread that gets the lock may enter its section. -/
theorem LockWorld.admits {state : LockWorld τ σ κ} (held : state.locker.HeldBy state.claims)
    {thread : τ} {mode : Mode} {taken : Locker τ}
    (takes : state.locker.take thread (state.locker.kind.mode mode) = some taken) :
    state.world.Admits mode := by
  have alone (exclusive : state.locker.kind.mode mode = .exclusive) : state.world.Quiet := by
    rw [exclusive] at takes
    exact unclaimed_iff.mp (held.free_iff.mp (Locker.take_exclusive.mp takes).1)
  cases mode with
  | exclusive =>
    apply alone
    cases state.locker.kind <;> rfl
  | shared =>
    cases kind : state.locker.kind with
    | mtx =>
      apply World.Quiet.readable
      apply alone
      rw [kind]
      rfl
    | rw =>
      rw [kind] at takes
      have free := (Locker.take_shared.mp takes).1
      intro other rest place
      have claimed : state.claims other = some .exclusive := by
        unfold claims
        rw [World.modeOf_inside place, kind]
        rfl
      have writes := (held.writer other).mpr claimed
      rw [free] at writes
      cases writes

/-- What a lock call of a guard does: nothing, or the thread enters its section. -/
theorem lockStep_lock (state : LockWorld τ σ κ) (thread : τ) (opened : Section σ κ)
    (attempt : Attempt) :
    lockStep state (.lock thread opened attempt) = state ∨
      ∃ locker, state.world.places thread = .outside ∧
        lockStep state (.lock thread opened attempt) =
          { state with locker := locker, world := state.world.enter thread opened } ∧
        (state.armed = false ∧ locker = state.locker ∨
          state.armed = true ∧
            (state.locker.take thread (state.locker.kind.mode opened.mode) = some locker ∨
              attempt.rc ≠ 0 ∧ attempt.errno = 0)) := by
  unfold lockStep
  dsimp only
  split
  · exact .inl rfl
  · rename_i outside
    split
    · exact .inl rfl
    · rename_i locker result locks
      by_cases runs : 0 ≤ result
      · rw [if_pos runs]
        refine .inr ⟨locker, outside, rfl, ?_⟩
        unfold hwLockerLock lockerActive at locks
        cases armed : state.armed with
        | false =>
          rw [armed] at locks
          exact .inl ⟨rfl, (Prod.mk.inj (Option.some.inj locks)).1.symm⟩
        | true =>
          rw [armed, if_neg (by simp)] at locks
          refine .inr ⟨rfl, ?_⟩
          by_cases takes : attempt.rc = 0
          · rw [if_pos takes, Option.map_eq_some_iff] at locks
            obtain ⟨taken, found, same⟩ := locks
            rw [found, ← (Prod.mk.inj same).1]
            exact .inl rfl
          · rw [if_neg takes] at locks
            have failed : -(attempt.errno : Int) = result := (Prod.mk.inj (Option.some.inj locks)).2
            exact .inr ⟨takes, by omega⟩
      · rw [if_neg runs]
        exact .inl rfl

/-- What an unlock call of a guard does: nothing, or the thread leaves its section. -/
theorem lockStep_unlock (state : LockWorld τ σ κ) (thread : τ) :
    lockStep state (.unlock thread) = state ∨
      ∃ mode, state.world.places thread = .inside mode [] ∧
        ((∃ locker, hwLockerUnlock state.armed state.locker thread = some locker ∧
          lockStep state (.unlock thread) =
            { state with locker := locker, world := state.world.leave thread }) ∨
          hwLockerUnlock state.armed state.locker thread = none) := by
  unfold lockStep
  dsimp only
  split
  · rename_i mode place
    refine .inr ⟨mode, place, ?_⟩
    cases gives : hwLockerUnlock state.armed state.locker thread with
    | none => exact .inr rfl
    | some locker => exact .inl ⟨locker, rfl, rfl⟩
  · exact .inl rfl

section Steps

variable {first : Whole τ σ κ} {state : LockWorld τ σ κ}

/-- A process may start. -/
theorem LockWorld.Sound.initial (kind : LockKind) (first : Whole τ σ κ) :
    (LockWorld.start kind first).Sound first where
  explained := Explained.start first
  held armed := by cases armed
  single _ := ⟨⟨rfl, rfl⟩, fun _ _ _ _ => rfl⟩
  proper := rfl

/-- The lockers are armed. -/
theorem LockWorld.Sound.enableParallel (sound : state.Sound first) (quiet : state.world.Quiet) :
    LockWorld.Sound first { state with armed := true } where
  explained := sound.explained
  held _ := by
    cases armed : state.armed with
    | true => exact sound.held armed
    | false =>
      have free := (sound.single armed).free
      have nobody : ∀ thread, state.claims thread = none := unclaimed_iff.mpr quiet
      constructor
      · intro thread
        show state.locker.writer = some thread ↔ state.claims thread = some .exclusive
        rw [free.1, nobody thread]
        simp
      · intro thread
        show thread ∈ state.locker.readers ↔ state.claims thread = some .shared
        rw [free.2, nobody thread]
        simp
      · show state.locker.readers.Nodup
        rw [free.2]
        exact List.nodup_nil
      · exact .inl free.1
  single armed := by cases armed
  proper := sound.proper

/-- The one thread enters a section before the lockers are armed. -/
theorem LockWorld.Single.enter (single : state.Single) (quiet : state.world.Quiet) (thread : τ)
    (opened : Section σ κ) :
    LockWorld.Single { state with world := state.world.enter thread opened } := by
  refine ⟨single.free, ?_⟩
  intro holder other different
  show (state.world.enter thread opened).modeOf holder ≠ none →
    (state.world.enter thread opened).modeOf other = none
  have nobody (any : τ) : state.world.modeOf any = none := World.modeOf_eq_none.mpr (quiet any)
  rw [World.modeOf_enter]
  intro holds
  have entering : holder = thread := by
    by_contra apart
    rw [Function.update_of_ne apart] at holds
    exact holds (nobody holder)
  rw [entering] at different
  rw [Function.update_of_ne different]
  exact nobody other

/-- The one thread leaves its section before the lockers are armed. -/
theorem LockWorld.Single.leave (single : state.Single) {thread : τ}
    (opened : state.world.modeOf thread ≠ none) :
    LockWorld.Single { state with world := state.world.leave thread } := by
  refine ⟨single.free, ?_⟩
  intro holder other different
  show (state.world.leave thread).modeOf holder ≠ none →
    (state.world.leave thread).modeOf other = none
  rw [World.modeOf_leave]
  intro _
  by_cases leaving : other = thread
  · rw [leaving, Function.update_self]
  · rw [Function.update_of_ne leaving]
    exact single.alone thread other leaving opened

/-- A guard locks. -/
theorem LockWorld.Sound.lock (sound : state.Sound first) (thread : τ) (opened : Section σ κ)
    (attempt : Attempt) (discipline : LockDiscipline state (.lock thread opened attempt)) :
    (lockStep state (.lock thread opened attempt)).Sound first := by
  rcases lockStep_lock state thread opened attempt with
    same | ⟨locker, outside, entered, unarmed | ⟨armed, taken | ⟨fails, errno⟩⟩⟩
  · rw [same]
    exact sound
  · obtain ⟨unarmed, rfl⟩ := unarmed
    rw [entered]
    have quiet := discipline.1 unarmed
    refine ⟨sound.explained.enter outside ?_, ?_, ?_, sound.proper⟩
    · cases opened.mode with
      | shared => exact quiet.readable
      | exclusive => exact quiet
    · intro armed
      rw [unarmed] at armed
      cases armed
    · exact fun _ => (sound.single unarmed).enter quiet thread opened
  · rw [entered]
    have held := sound.held armed
    refine ⟨sound.explained.enter outside (admits held taken), ?_, ?_, sound.proper⟩
    · intro _
      rw [claims_enter state locker (Locker.take_kind taken)]
      exact held.take (claims_eq_none.mpr (World.modeOf_eq_none.mpr outside)) taken
    · intro unarmed
      rw [armed] at unarmed
      cases unarmed
  · exact absurd errno (discipline.2 fails)

/-- A thread goes on in its section. -/
theorem LockWorld.Sound.go (sound : state.Sound first) (thread : τ) :
    (lockStep state (.go thread)).Sound first := by
  have claims : LockWorld.claims { state with world := state.world.go thread } = state.claims := by
    funext other
    unfold LockWorld.claims
    rw [World.modeOf_go]
  refine ⟨sound.explained.go thread, ?_, ?_, sound.proper⟩
  · intro armed
    show state.locker.HeldBy (LockWorld.claims { state with world := state.world.go thread })
    rw [claims]
    exact sound.held armed
  · intro unarmed
    have single := sound.single unarmed
    refine ⟨single.free, ?_⟩
    intro holder other different
    show (state.world.go thread).modeOf holder ≠ none → (state.world.go thread).modeOf other = none
    rw [World.modeOf_go]
    exact single.alone holder other different

/-- A guard unlocks. -/
theorem LockWorld.Sound.unlock (sound : state.Sound first) (thread : τ) :
    (lockStep state (.unlock thread)).Sound first := by
  rcases lockStep_unlock state thread with same | ⟨mode, place, gives⟩
  · rw [same]
    exact sound
  have left := sound.explained.leave place
  have opened : state.world.modeOf thread ≠ none := by
    rw [World.modeOf_inside place]
    simp
  have claimed : state.claims thread ≠ none := fun none => opened (claims_eq_none.mp none)
  cases armed : state.armed with
  | false =>
    have result : hwLockerUnlock state.armed state.locker thread = some state.locker := by
      rw [armed]
      rfl
    rw [result] at gives
    rcases gives with ⟨locker, same, leaves⟩ | undefined
    · rw [leaves, ← Option.some.inj same]
      refine ⟨left, ?_, ?_, sound.proper⟩
      · intro now
        rw [armed] at now
        cases now
      · exact fun _ => (sound.single armed).leave opened
    · cases undefined
  | true =>
    obtain ⟨free, found, same, held⟩ := (sound.held armed).giveBack claimed
    have result : hwLockerUnlock state.armed state.locker thread = some free := by
      rw [armed]
      exact found
    rw [result] at gives
    rcases gives with ⟨locker, also, leaves⟩ | undefined
    · rw [leaves, ← Option.some.inj also]
      refine ⟨left, ?_, ?_, sound.proper⟩
      · intro _
        rw [claims_leave state free same]
        exact held
      · intro now
        rw [armed] at now
        cases now
    · cases undefined

/-- Every disciplined step keeps the invariant. -/
theorem LockWorld.Sound.step (sound : state.Sound first) (action : LockAction τ σ κ)
    (discipline : LockDiscipline state action) : (lockStep state action).Sound first := by
  cases action with
  | enableParallel => exact sound.enableParallel discipline
  | lock thread opened attempt => exact sound.lock thread opened attempt discipline
  | go thread => exact sound.go thread
  | unlock thread => exact sound.unlock thread

end Steps

/-! ## Runs -/

/-- The invariant holds along every run of a disciplined process. -/
theorem guards_sound (kind : LockKind) (first : Whole τ σ κ) (actions : List (LockAction τ σ κ))
    (discipline : AllSteps lockStep LockDiscipline (LockWorld.start kind first) actions) :
    AllStates lockStep (LockWorld.Sound first) (LockWorld.start kind first) actions := by
  apply allStates_of_steps _ (LockWorld.Sound.initial kind first) discipline
  intro state action sound met
  exact sound.step action met

/-- In every run of a disciplined process the guards keep sections apart, unlock only what is
locked, and let a thread wait only for another. -/
theorem guards_keep_apart (kind : LockKind) (first : Whole τ σ κ)
    (actions : List (LockAction τ σ κ))
    (discipline : AllSteps lockStep LockDiscipline (LockWorld.start kind first) actions) :
    AllStates lockStep LockWorld.Guarded (LockWorld.start kind first) actions :=
  (guards_sound kind first actions discipline).mono fun _ sound => sound.guarded

/-- In every run of a disciplined process, whenever no section is open, the shared data and what
each thread keeps are what the sections give when they are run one after another, each as a whole,
in the order in which they were entered. -/
theorem guards_serialise (kind : LockKind) (first : Whole τ σ κ)
    (actions : List (LockAction τ σ κ))
    (discipline : AllSteps lockStep LockDiscipline (LockWorld.start kind first) actions) :
    AllStates lockStep (fun state => state.world.Quiet →
      (⟨state.world.data, state.world.kept⟩ : Whole τ σ κ) = first.after state.world.entered)
      (LockWorld.start kind first) actions :=
  (guards_sound kind first actions discipline).mono fun _ sound => sound.explained.quiet

/-- A section that copies a shared number and then stores the next one. -/
def countSection : Section Nat Nat where
  mode := .exclusive
  parts := [fun data _ => (data, data), fun _ kept => (kept + 1, kept)]
  reads shared := by cases shared

/-- Two threads that count: the second one comes while the first one is inside, and waits. -/
def countActions : List (LockAction Bool Nat Nat) :=
  [.enableParallel, .lock true countSection ⟨0, 0⟩, .go true, .lock false countSection ⟨0, 0⟩,
    .go true, .unlock true, .lock false countSection ⟨0, 0⟩, .go false, .go false, .unlock false]

/-- The threads that count are disciplined. -/
theorem countActions_discipline :
    AllSteps lockStep LockDiscipline (LockWorld.start .rw ⟨0, fun _ => 0⟩) countActions := by
  have fine (attempt : Attempt) (none : attempt.rc = 0) : attempt.rc ≠ 0 → attempt.errno ≠ 0 :=
    fun fails => absurd none fails
  refine ⟨fun _ => rfl, ⟨nofun, fine _ rfl⟩, trivial, ⟨nofun, fine _ rfl⟩, trivial, trivial,
    ⟨nofun, fine _ rfl⟩, trivial, trivial, trivial, trivial⟩

/-- The threads that count are kept apart. -/
theorem guards_keep_apart_counting :
    AllStates lockStep LockWorld.Guarded (LockWorld.start .rw ⟨0, fun _ => 0⟩) countActions :=
  guards_keep_apart .rw ⟨0, fun _ => 0⟩ countActions countActions_discipline

/-- The threads that count do not lose a step. -/
theorem guards_serialise_counting :
    (run lockStep (LockWorld.start .rw ⟨0, fun _ => 0⟩) countActions).world.data = 2 ∧
      AllStates lockStep (fun state => state.world.Quiet →
        (⟨state.world.data, state.world.kept⟩ : Whole Bool Nat Nat) =
          (⟨0, fun _ => 0⟩ : Whole Bool Nat Nat).after state.world.entered)
        (LockWorld.start .rw ⟨0, fun _ => 0⟩) countActions :=
  ⟨by decide, guards_serialise .rw ⟨0, fun _ => 0⟩ countActions countActions_discipline⟩

/-- What the discipline is for: a guard whose section is open when the lockers are armed unlocks a
lock that its thread does not hold. -/
theorem armed_inside_misused {state : LockWorld τ σ κ} (single : state.Single) {thread : τ}
    {mode : Mode} (place : state.world.places thread = .inside mode []) :
    (run lockStep state [.enableParallel, .unlock thread]).misused = true := by
  have unheld : hwLockerUnlock true state.locker thread = none := by
    simp [hwLockerUnlock, lockerActive, Locker.giveBack, single.free.1, single.free.2]
  simp [lockStep, place, unheld]

/-! ## Calls -/

/-- What a thread does next, when its sections are those of some calls. -/
inductive LockCommand (τ γ : Type*) where
  /-- `hw_locker_enable_parallel`. -/
  | enableParallel
  /-- The lock call of the guard of a call. -/
  | lock (thread : τ) (call : γ) (attempt : Attempt)
  /-- The next part of the guarded section. -/
  | go (thread : τ)
  /-- The unlock call of a guard. -/
  | unlock (thread : τ)

/-- The sections of the calls. -/
def LockCommand.action {γ : Type*} (body : γ → Section σ κ) : LockCommand τ γ → LockAction τ σ κ
  | .enableParallel => .enableParallel
  | .lock thread call attempt => .lock thread (body call) attempt
  | .go thread => .go thread
  | .unlock thread => .unlock thread

/-- Some calls of threads, each with its section. -/
def entriesOf {γ : Type*} (body : γ → Section σ κ) (calls : List (τ × γ)) :
    List (τ × Section σ κ) := calls.map (Prod.map id body)

/-- A step enters at most one section. -/
theorem lockStep_entered (state : LockWorld τ σ κ) (action : LockAction τ σ κ) :
    (lockStep state action).world.entered = state.world.entered ∨
      ∃ thread opened attempt, action = .lock thread opened attempt ∧
        (lockStep state action).world.entered = state.world.entered ++ [(thread, opened)] := by
  cases action with
  | enableParallel => exact .inl rfl
  | lock thread opened attempt =>
    rcases lockStep_lock state thread opened attempt with same | ⟨locker, _, entered, _⟩
    · rw [same]
      exact .inl rfl
    · rw [entered]
      exact .inr ⟨thread, opened, attempt, rfl, rfl⟩
  | go thread =>
    refine .inl ?_
    show (state.world.go thread).entered = state.world.entered
    unfold World.go
    split <;> rfl
  | unlock thread =>
    refine .inl ?_
    unfold lockStep
    dsimp only
    split
    · split <;> rfl
    · rfl

/-- Every step only ends sections that were begun. -/
theorem lockStep_begun {state : LockWorld τ σ κ} (begun : state.world.Begun)
    (action : LockAction τ σ κ) : (lockStep state action).world.Begun := by
  cases action with
  | enableParallel => exact begun
  | lock thread opened attempt =>
    rcases lockStep_lock state thread opened attempt with same | ⟨locker, _, entered, _⟩
    · rw [same]
      exact begun
    · rw [entered]
      exact begun.enter thread opened
  | go thread => exact begun.go thread
  | unlock thread =>
    unfold lockStep
    dsimp only
    split
    · split <;> exact begun.leave thread
    · exact begun

/-- What the sections of a run come from: the calls whose guards let them in, in this order. -/
structure FromCalls {γ : Type*} (body : γ → Section σ κ) (commands : List (LockCommand τ γ))
    (state : LockWorld τ σ κ) (calls : List (τ × γ)) : Prop where
  /-- The sections are those of the calls. -/
  entered : state.world.entered = entriesOf body calls
  /-- The calls are made in the run. -/
  made : ∀ entry ∈ calls, ∃ attempt, .lock entry.1 entry.2 attempt ∈ commands
  /-- What is left of a section is the end of that of a call. -/
  begun : state.world.Begun

/-- In every run the sections come from its calls. -/
theorem entered_calls {γ : Type*} (body : γ → Section σ κ) (kind : LockKind)
    (first : Whole τ σ κ) (commands : List (LockCommand τ γ)) :
    AllStates lockStep (fun state => ∃ calls, FromCalls body commands state calls)
      (LockWorld.start kind first) (commands.map (LockCommand.action body)) := by
  have steps : AllSteps lockStep
      (fun _ action => ∃ command ∈ commands, action = LockCommand.action body command)
      (LockWorld.start kind first) (commands.map (LockCommand.action body)) := by
    apply allSteps_of_mem
    intro action listed
    obtain ⟨command, given, same⟩ := List.mem_map.mp listed
    exact ⟨command, given, same.symm⟩
  have initial : FromCalls body commands (LockWorld.start kind first) [] :=
    ⟨rfl, nofun, World.Begun.initial first⟩
  apply allStates_of_steps _ ⟨[], initial⟩ steps
  rintro state action ⟨calls, entered, made, begun⟩ ⟨command, given, rfl⟩
  have begins := lockStep_begun begun (command.action body)
  rcases lockStep_entered state (command.action body) with
    same | ⟨thread, opened, attempt, equal, more⟩
  · exact ⟨calls, same.trans entered, made, begins⟩
  · cases command with
    | lock caller call tried =>
      obtain ⟨rfl, rfl, rfl⟩ := LockAction.lock.inj equal
      refine ⟨calls ++ [(caller, call)], ?_, ?_, begins⟩
      · rw [more, entered, entriesOf, entriesOf, List.map_append]
        rfl
      · intro entry listed
        rcases List.mem_append.mp listed with old | new
        · exact made entry old
        · rw [List.mem_singleton.mp new]
          exact ⟨tried, given⟩
    | enableParallel => cases equal
    | go caller => cases equal
    | unlock caller => cases equal

end HwrunOs.Bus
