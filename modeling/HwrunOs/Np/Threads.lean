import HwrunOs.Library.Runs
import HwrunOs.Np.Conn
import Mathlib.Data.List.MinMax
import Mathlib.Data.List.Perm.Subperm

/-!
# Sockets of several threads

`np_socket_impl` and `np_accept_impl` open a descriptor and register it afterwards, `np_close_impl`
unregisters it and closes it afterwards. So a descriptor is in the table only while it is open, and
a number that the system gives out again is not in the table any more. The steps of all threads are
taken in any order.
-/

namespace HwrunOs.Np

open HwrunOs.Bytes HwrunOs.Runs

/-! ## Calls in flight -/

/-- What is left of `np_accept_impl` after the registration. -/
inductive Refresh where
  /-- `np_conn_set_addresses` with the address of the other side. -/
  | setRemote (ip : CString) (port : UInt32)
  /-- `getsockname`. -/
  | getsockname
  /-- `np_conn_set_local` with what it returned. -/
  | setLocal (ip : CString) (port : UInt32)
  /-- `getpeername`. -/
  | getpeername

/-- How far a thread is in its call. -/
inductive Phase where
  /-- The thread is in no call. -/
  | idle
  /-- The system opened the descriptor, and `np_conn_register` is next. -/
  | opened (c : Socket) (rest : List Refresh)
  /-- The descriptor is registered; it is returned when nothing is left. -/
  | registered (fd : Nat) (rest : List Refresh)
  /-- `np_close_impl` begins, and `np_conn_unregister` is next. -/
  | closing (fd : Nat)
  /-- `close` is next. -/
  | unregistered (fd : Nat)

/-- The descriptor of a call. -/
def Phase.fd : Phase → Option Nat
  | .idle => none
  | .opened c _ => some c.fd
  | .registered fd _ | .closing fd | .unregistered fd => some fd

/-- Whether the descriptor of a call is registered. -/
def Phase.tracked : Phase → Bool
  | .idle | .opened _ _ | .unregistered _ => false
  | .registered _ _ | .closing _ => true

/-! ## The system -/

/-- The table, the descriptors of the process and the threads. -/
structure World where
  /-- The connection table. -/
  table : Table
  /-- The open descriptors. -/
  os : List Nat
  /-- Those opened through these calls. -/
  opened : List Nat
  /-- Those that were returned to a caller, who has not closed them. -/
  owned : List Nat
  /-- The calls of the threads. -/
  phases : Nat → Phase

/-- Before the first call: other descriptors may be open. -/
def World.start (os : List Nat) : World := ⟨[], os, [], [], fun _ => .idle⟩

/-- A descriptor that is not open: the one the system would choose, or one above all. -/
def World.freeFd (world : World) (choice : Nat) : Nat :=
  if choice ∈ world.os then world.os.foldr max 0 + 1 else choice

/-- A thread goes on to another phase. -/
def World.goes (world : World) (thread : Nat) (phase : Phase) : World :=
  { world with phases := Function.update world.phases thread phase }

/-- The entry of `np_socket_impl`. -/
def npSocketEntry (domain type protocol : Int) (fd : Nat) : Socket :=
  ⟨fd, domain, type, protocol, .unconnected, Field.copy [], 0, Field.copy [], 0⟩

/-- The entry of `np_accept_impl`. -/
def npAcceptEntry (domain : Int) (newfd : Nat) : Socket :=
  ⟨newfd, domain, 0, 0, .connected, Field.copy [], 0, Field.copy [], 0⟩

/-- What `np_accept_impl` does after the registration: the address of the other side is stored when
the caller asks for it, an empty one when it is not of IPv4, and then both are asked for. -/
def npAcceptRest (asked : Bool) (peer : Option (CString × UInt32)) : List Refresh :=
  let (ip, port) := peer.getD ([], 0)
  (if asked then [.setRemote ip port] else []) ++ [.getsockname, .getpeername]

/-- A descriptor is opened by a thread, which is then about to register it. -/
def World.opens (world : World) (thread choice : Nat) (entry : Nat → Socket)
    (rest : List Refresh) : World :=
  let fd := world.freeFd choice
  { world.goes thread (.opened (entry fd) rest) with
    os := fd :: world.os
    opened := fd :: world.opened }

/-- The next step of a call, with the address that `getsockname` or `getpeername` returns, none
when it fails. -/
def World.advance (world : World) (thread : Nat) (answer : Option (CString × UInt32)) : World :=
  match world.phases thread with
  | .idle => world
  | .opened c rest =>
    { world.goes thread (.registered c.fd rest) with table := (npConnRegister world.table c).1 }
  | .registered fd [] => { world.goes thread .idle with owned := fd :: world.owned }
  | .registered fd (.setRemote ip port :: rest) =>
    { world.goes thread (.registered fd rest) with
      table := (npConnSetAddresses world.table fd (some (ip, port)) none).1 }
  | .registered fd (.setLocal ip port :: rest) =>
    { world.goes thread (.registered fd rest) with
      table := (npConnSetLocal world.table fd ip port).1 }
  | .registered fd (.getsockname :: rest) =>
    match answer with
    | some (ip, port) => world.goes thread (.registered fd (.setLocal ip port :: rest))
    | none => world.goes thread (.registered fd rest)
  | .registered fd (.getpeername :: rest) =>
    match answer with
    | some (ip, port) => world.goes thread (.registered fd (.setRemote ip port :: rest))
    | none => world.goes thread (.registered fd rest)
  | .closing fd =>
    { world.goes thread (.unregistered fd) with table := (npConnUnregister world.table fd).1 }
  | .unregistered fd =>
    { world.goes thread .idle with
      os := world.os.filter (· ≠ fd)
      opened := world.opened.filter (· ≠ fd) }

/-- What happens next. A thread begins a call only when it is in none. -/
inductive Action where
  /-- A thread calls `np_socket_impl`, and `socket` fails or opens a descriptor. -/
  | socket (thread : Nat) (domain type protocol : Int) (answer : Except Int Nat)
  /-- A thread calls `np_accept_impl`, and `accept` fails or opens a descriptor. -/
  | accept (thread : Nat) (domain : Int) (asked : Bool) (peer : Option (CString × UInt32))
    (answer : Except Int Nat)
  /-- A thread calls `np_close_impl`. -/
  | close (thread fd : Nat)
  /-- A thread takes the next step of its call. -/
  | advance (thread : Nat) (answer : Option (CString × UInt32))
  /-- Other code opens a descriptor. -/
  | otherOpens (choice : Nat)
  /-- Other code closes a descriptor. -/
  | otherCloses (fd : Nat)

/-- One step. -/
def World.step (world : World) : Action → World
  | .socket thread domain type protocol answer =>
    match world.phases thread, answer with
    | .idle, .ok choice => world.opens thread choice (npSocketEntry domain type protocol) []
    | _, _ => world
  | .accept thread domain asked peer answer =>
    match world.phases thread, answer with
    | .idle, .ok choice =>
      world.opens thread choice (npAcceptEntry domain) (npAcceptRest asked peer)
    | _, _ => world
  | .close thread fd =>
    match world.phases thread with
    | .idle => { world.goes thread (.closing fd) with owned := world.owned.filter (· ≠ fd) }
    | _ => world
  | .advance thread answer => world.advance thread answer
  | .otherOpens choice => { world with os := world.freeFd choice :: world.os }
  | .otherCloses fd => { world with os := world.os.filter (· ≠ fd) }

/-- A descriptor is closed by its owner. -/
def ClosesOwn (world : World) : Action → Prop
  | .close _ fd => fd ∈ world.owned
  | .otherCloses fd => fd ∉ world.opened
  | _ => True

/-- At most as many descriptors are open as there are places. -/
def Fits (world : World) : Prop := world.opened.length ≤ connCap

/-- What the calls rely on. -/
def Proper (world : World) (action : Action) : Prop := Fits world ∧ ClosesOwn world action

instance (world : World) : Decidable (Fits world) :=
  inferInstanceAs (Decidable (world.opened.length ≤ connCap))

instance (world : World) (action : Action) : Decidable (ClosesOwn world action) :=
  match action with
  | .close _ fd => inferInstanceAs (Decidable (fd ∈ world.owned))
  | .otherCloses fd => inferInstanceAs (Decidable (fd ∉ world.opened))
  | .socket .. | .accept .. | .advance .. | .otherOpens _ => inferInstanceAs (Decidable True)

instance (world : World) (action : Action) : Decidable (Proper world action) :=
  inferInstanceAs (Decidable (Fits world ∧ ClosesOwn world action))

/-- When no call is in flight, the table has exactly the open descriptors, each once. -/
def Tracks (world : World) : Prop :=
  (∀ thread, world.phases thread = .idle) →
    (fds world.table).Nodup ∧ ∀ fd, fd ∈ fds world.table ↔ fd ∈ world.opened

/-! ## One descriptor -/

/-- What holds of a descriptor: it has an owner or a call while it is open, never two, and whether
it is registered is up to its holder. -/
structure Placed (world : World) (fd : Nat) : Prop where
  /-- It is registered only while it is open. -/
  table : fd ∈ fds world.table → fd ∈ world.opened
  /-- It is open for the system. -/
  os : fd ∈ world.opened → fd ∈ world.os
  /-- An owned one is registered. -/
  owned : fd ∈ world.owned → fd ∈ fds world.table
  /-- One in a call is open and not owned, and registered as the call says. -/
  call : ∀ thread, (world.phases thread).fd = some fd →
    fd ∈ world.opened ∧ fd ∉ world.owned ∧
      (fd ∈ fds world.table ↔ (world.phases thread).tracked = true)
  /-- It is in one call. -/
  alone : ∀ thread other, (world.phases thread).fd = some fd →
    (world.phases other).fd = some fd → thread = other
  /-- An open one is owned or in a call. -/
  held : fd ∈ world.opened → fd ∈ world.owned ∨ ∃ thread, (world.phases thread).fd = some fd

/-- What holds of the table and all descriptors. -/
structure Consistent (world : World) : Prop where
  /-- No descriptor is twice in the table. -/
  table : (fds world.table).Nodup
  /-- No descriptor is counted twice. -/
  opened : world.opened.Nodup
  /-- Every descriptor is in its place. -/
  placed : ∀ fd, Placed world fd

/-- Without calls in flight a consistent table has the open descriptors. -/
theorem Consistent.tracks {world : World} (consistent : Consistent world) : Tracks world := by
  intro idle
  refine ⟨consistent.table, fun fd => ⟨(consistent.placed fd).table, ?_⟩⟩
  intro listed
  rcases (consistent.placed fd).held listed with owned | ⟨thread, mine⟩
  · exact (consistent.placed fd).owned owned
  · rw [idle thread] at mine
    cases mine

/-- Before the first call nothing is open. -/
theorem consistent_start (os : List Nat) : Consistent (.start os) where
  table := List.nodup_nil
  opened := List.nodup_nil
  placed _ :=
    { table := id
      os := fun listed => nomatch listed
      owned := fun listed => nomatch listed
      call := fun _ mine => nomatch mine
      alone := fun _ _ mine => nomatch mine
      held := fun listed => nomatch listed }

/-- A descriptor in no call is in its place when its owner has it or nobody. -/
theorem Placed.free {world : World} {fd : Nat} (none : ∀ thread, (world.phases thread).fd ≠ some fd)
    (table : fd ∈ fds world.table ↔ fd ∈ world.opened)
    (owned : fd ∈ world.owned ↔ fd ∈ world.opened) (os : fd ∈ world.opened → fd ∈ world.os) :
    Placed world fd where
  table := table.mp
  os := os
  owned listed := table.mpr (owned.mp listed)
  call thread mine := absurd mine (none thread)
  alone thread _ mine := absurd mine (none thread)
  held listed := .inl (owned.mpr listed)

/-- A descriptor is in its place when one call has it. -/
theorem Placed.mine {world : World} {thread fd : Nat} (mine : (world.phases thread).fd = some fd)
    (others : ∀ other, other ≠ thread → (world.phases other).fd ≠ some fd)
    (opened : fd ∈ world.opened) (os : fd ∈ world.os) (owned : fd ∉ world.owned)
    (table : fd ∈ fds world.table ↔ (world.phases thread).tracked = true) : Placed world fd := by
  have only (other : Nat) (has : (world.phases other).fd = some fd) : other = thread := by
    by_contra apart
    exact others other apart has
  constructor
  · exact fun _ => opened
  · exact fun _ => os
  · exact fun listed => absurd listed owned
  · intro other has
    obtain rfl := only other has
    exact ⟨opened, owned, table⟩
  · intro first second one two
    rw [only first one, only second two]
  · exact fun _ => .inr ⟨thread, mine⟩

/-- A descriptor that a step does not touch stays in its place. -/
theorem Placed.frame {world after : World} {fd : Nat} (placed : Placed world fd)
    (table : fd ∈ fds after.table ↔ fd ∈ fds world.table)
    (opened : fd ∈ after.opened ↔ fd ∈ world.opened) (owned : fd ∈ after.owned ↔ fd ∈ world.owned)
    (os : fd ∈ world.opened → fd ∈ world.os → fd ∈ after.os)
    (phases : ∀ thread, (after.phases thread).fd = some fd ∨ (world.phases thread).fd = some fd →
      after.phases thread = world.phases thread) : Placed after fd := by
  have same (thread : Nat) (has : (after.phases thread).fd = some fd) :
      after.phases thread = world.phases thread := phases thread (.inl has)
  constructor
  · rw [table, opened]
    exact placed.table
  · rw [opened]
    exact fun listed => os listed (placed.os listed)
  · rw [table, owned]
    exact placed.owned
  · intro thread has
    have before := same thread has
    rw [before] at has ⊢
    rw [table, opened, owned]
    exact placed.call thread has
  · intro thread other one two
    exact placed.alone thread other (same thread one ▸ one) (same other two ▸ two)
  · rw [opened, owned]
    intro listed
    rcases placed.held listed with had | ⟨thread, has⟩
    · exact .inl had
    · refine .inr ⟨thread, ?_⟩
      rw [phases thread (.inr has)]
      exact has

/-! ## Steps -/

/-- The phase of the thread that goes on. -/
theorem goes_self (world : World) (thread : Nat) (phase : Phase) :
    (world.goes thread phase).phases thread = phase := Function.update_self _ _ _

/-- The other threads stay in their phases. -/
theorem goes_other (world : World) {thread other : Nat} (apart : other ≠ thread) (phase : Phase) :
    (world.goes thread phase).phases other = world.phases other :=
  Function.update_of_ne apart _ _

/-- Only the descriptors of the thread's call change hands when it goes on. -/
theorem goes_frame {world : World} {thread fd : Nat} {phase : Phase}
    (before : (world.phases thread).fd ≠ some fd) (after : phase.fd ≠ some fd) (other : Nat)
    (has : ((world.goes thread phase).phases other).fd = some fd ∨
      (world.phases other).fd = some fd) :
    (world.goes thread phase).phases other = world.phases other := by
  by_cases same : other = thread
  · subst same
    rw [goes_self] at has
    rcases has with has | has
    · exact absurd has after
    · exact absurd has before
  · exact goes_other world same phase

/-- A descriptor that is given out is not open. -/
theorem freeFd_free (world : World) (choice : Nat) : world.freeFd choice ∉ world.os := by
  unfold World.freeFd
  split
  · intro listed
    exact absurd (List.le_max_of_le' 0 listed le_rfl) (Nat.not_succ_le_self _)
  · assumption

/-- Opening keeps everything in its place. -/
theorem Consistent.opens {world : World} (consistent : Consistent world) {thread : Nat}
    (idle : world.phases thread = .idle) (choice : Nat) {entry : Nat → Socket}
    (names : ∀ fd, (entry fd).fd = fd) (rest : List Refresh) :
    Consistent (world.opens thread choice entry rest) := by
  have free := freeFd_free world choice
  have nobody : (world.phases thread).fd = none := by rw [idle]; rfl
  unfold World.opens
  generalize world.freeFd choice = fd at free
  have closed : fd ∉ world.opened := fun listed => free ((consistent.placed fd).os listed)
  have untracked : fd ∉ fds world.table :=
    fun listed => closed ((consistent.placed fd).table listed)
  constructor
  · exact consistent.table
  · exact List.nodup_cons.mpr ⟨closed, consistent.opened⟩
  intro other
  by_cases same : other = fd
  · subst same
    have mine : ((world.goes thread (.opened (entry other) rest)).phases thread).fd =
        some other := by
      rw [goes_self]
      exact congrArg some (names other)
    refine .mine mine ?_ List.mem_cons_self List.mem_cons_self ?_ ?_
    · intro another apart has
      change ((world.goes thread _).phases another).fd = _ at has
      rw [goes_other world apart] at has
      exact closed ((consistent.placed other).call another has).1
    · exact fun listed => untracked ((consistent.placed other).owned listed)
    · show other ∈ fds world.table ↔ ((world.goes thread _).phases thread).tracked = true
      rw [goes_self]
      exact ⟨fun listed => absurd listed untracked, fun impossible => nomatch impossible⟩
  · refine (consistent.placed other).frame Iff.rfl ?_ Iff.rfl ?_ ?_
    · exact ⟨fun listed => (List.mem_cons.mp listed).resolve_left same, List.mem_cons_of_mem _⟩
    · exact fun _ listed => List.mem_cons_of_mem _ listed
    · have after : Phase.fd (.opened (entry fd) rest) ≠ some other := by
        show some (entry fd).fd ≠ some other
        rw [names]
        exact fun found => same (Option.some.inj found).symm
      exact goes_frame (by rw [nobody]; exact fun found => nomatch found) after

/-- A call goes on with its descriptor, which it may register or unregister. -/
theorem Consistent.passes {world : World} (consistent : Consistent world) {thread fd : Nat}
    (was : (world.phases thread).fd = some fd) {phase : Phase} (now : phase.fd = some fd)
    {table : Table} (distinct : (fds table).Nodup)
    (others : ∀ other, other ≠ fd → (other ∈ fds table ↔ other ∈ fds world.table))
    (tracked : fd ∈ fds table ↔ phase.tracked = true) :
    Consistent { world.goes thread phase with table := table } := by
  refine ⟨distinct, consistent.opened, ?_⟩
  intro other
  have placed := consistent.placed other
  by_cases same : other = fd
  · subst same
    obtain ⟨opened, free, -⟩ := placed.call thread was
    refine @Placed.mine _ thread _ ?_ ?_ opened (placed.os opened) free ?_
    · show ((world.goes thread phase).phases thread).fd = _
      rw [goes_self, now]
    · intro another apart has
      change ((world.goes thread phase).phases another).fd = _ at has
      rw [goes_other world apart] at has
      exact apart (placed.alone another thread has was)
    · show _ ↔ ((world.goes thread phase).phases thread).tracked = true
      rw [goes_self]
      exact tracked
  · have differs : some fd ≠ some other := fun found => same (Option.some.inj found).symm
    refine placed.frame (others other same) Iff.rfl Iff.rfl (fun _ listed => listed) ?_
    exact goes_frame (by rwa [was]) (by rwa [now])

/-- A descriptor that is open and not registered leaves room in the table. -/
theorem Consistent.room {world : World} (consistent : Consistent world) (fits : Fits world)
    {fd : Nat} (opened : fd ∈ world.opened) (untracked : fd ∉ fds world.table) :
    world.table.length < connCap := by
  have inside : fd :: fds world.table ⊆ world.opened := by
    intro other listed
    rcases List.mem_cons.mp listed with rfl | listed
    · exact opened
    · exact (consistent.placed other).table listed
  have distinct : (fd :: fds world.table).Nodup := List.nodup_cons.mpr ⟨untracked, consistent.table⟩
  have counted := (List.Nodup.subperm distinct inside).length_le
  rw [List.length_cons, fds, List.length_map] at counted
  exact Nat.lt_of_lt_of_le counted fits

/-- A registration keeps everything in its place. -/
theorem Consistent.registers {world : World} (consistent : Consistent world) (fits : Fits world)
    {thread : Nat} {c : Socket} {rest : List Refresh}
    (here : world.phases thread = .opened c rest) :
    Consistent { world.goes thread (.registered c.fd rest) with
      table := (npConnRegister world.table c).1 } := by
  have was : (world.phases thread).fd = some c.fd := by rw [here]; rfl
  obtain ⟨opened, -, tracked⟩ := (consistent.placed c.fd).call thread was
  have untracked : c.fd ∉ fds world.table := by
    rw [tracked, here]
    exact Bool.false_ne_true
  have stored := fds_npConnRegister (c := c) (consistent.room fits opened untracked)
  rw [if_neg untracked] at stored
  apply consistent.passes was rfl
  · rw [stored]
    refine List.nodup_append.mpr ⟨consistent.table, List.nodup_singleton _, ?_⟩
    intro one listed other single same
    rw [List.mem_singleton] at single
    exact untracked (single ▸ same ▸ listed)
  · intro other differs
    rw [stored]
    simp [differs]
  · rw [stored]
    simp [Phase.tracked]

/-- A step that leaves the descriptors of the table as they are. -/
theorem Consistent.refreshes {world : World} (consistent : Consistent world) {thread fd : Nat}
    {rest after : List Refresh} (here : world.phases thread = .registered fd rest) {table : Table}
    (same : fds table = fds world.table) :
    Consistent { world.goes thread (.registered fd after) with table := table } := by
  have was : (world.phases thread).fd = some fd := by rw [here]; rfl
  obtain ⟨-, -, tracked⟩ := (consistent.placed fd).call thread was
  rw [here] at tracked
  apply consistent.passes was rfl
  · exact same ▸ consistent.table
  · exact fun other _ => by rw [same]
  · rw [same]
    exact tracked

/-- An unregistration keeps everything in its place. -/
theorem Consistent.unregisters {world : World} (consistent : Consistent world) {thread fd : Nat}
    (here : world.phases thread = .closing fd) :
    Consistent { world.goes thread (.unregistered fd) with
      table := (npConnUnregister world.table fd).1 } := by
  have was : (world.phases thread).fd = some fd := by rw [here]; rfl
  have left := fds_npConnUnregister world.table fd
  apply consistent.passes was rfl
  · exact left.nodup_iff.mpr (consistent.table.erase fd)
  · intro other differs
    rw [left.mem_iff, List.mem_erase_of_ne differs]
  · rw [left.mem_iff]
    exact ⟨fun listed => absurd rfl (consistent.table.mem_erase_iff.mp listed).1,
      fun impossible => nomatch impossible⟩

/-- The caller of a call that returns has the descriptor. -/
theorem Consistent.returns {world : World} (consistent : Consistent world) {thread fd : Nat}
    (here : world.phases thread = .registered fd []) :
    Consistent { world.goes thread .idle with owned := fd :: world.owned } := by
  have was : (world.phases thread).fd = some fd := by rw [here]; rfl
  refine ⟨consistent.table, consistent.opened, ?_⟩
  intro other
  have placed := consistent.placed other
  by_cases same : other = fd
  · subst same
    obtain ⟨opened, -, tracked⟩ := placed.call thread was
    have listed : other ∈ fds world.table := tracked.mpr (by rw [here]; rfl)
    refine .free ?_ ⟨fun _ => opened, fun _ => listed⟩ ⟨fun _ => opened, fun _ => .head _⟩ placed.os
    intro another has
    change ((world.goes thread .idle).phases another).fd = _ at has
    by_cases mine : another = thread
    · rw [mine, goes_self] at has
      cases has
    · rw [goes_other world mine] at has
      exact mine (placed.alone another thread has was)
  · have differs : some fd ≠ some other := fun found => same (Option.some.inj found).symm
    refine placed.frame Iff.rfl Iff.rfl ?_ (fun _ listed => listed) ?_
    · exact ⟨fun listed => (List.mem_cons.mp listed).resolve_left same, List.mem_cons_of_mem _⟩
    · exact goes_frame (by rwa [was]) (fun found => nomatch found)

/-- An owner gives its descriptor to the call that closes it. -/
theorem Consistent.gives {world : World} (consistent : Consistent world) {thread fd : Nat}
    (idle : world.phases thread = .idle) (owned : fd ∈ world.owned) :
    Consistent { world.goes thread (.closing fd) with
      owned := world.owned.filter (· ≠ fd) } := by
  have nobody : (world.phases thread).fd = none := by rw [idle]; rfl
  refine ⟨consistent.table, consistent.opened, ?_⟩
  intro other
  have placed := consistent.placed other
  by_cases same : other = fd
  · subst same
    have listed := placed.owned owned
    have opened := placed.table listed
    refine @Placed.mine _ thread _ ?_ ?_ opened (placed.os opened) (by simp) ?_
    · show ((world.goes thread _).phases thread).fd = _
      rw [goes_self]
      rfl
    · intro another apart has
      change ((world.goes thread _).phases another).fd = _ at has
      rw [goes_other world apart] at has
      exact (placed.call another has).2.1 owned
    · show _ ↔ ((world.goes thread _).phases thread).tracked = true
      rw [goes_self]
      exact ⟨fun _ => rfl, fun _ => listed⟩
  · refine placed.frame Iff.rfl Iff.rfl ?_ (fun _ listed => listed) ?_
    · simp [same]
    · refine goes_frame (by rw [nobody]; exact fun found => nomatch found) ?_
      exact fun found => same (Option.some.inj found).symm

/-- After `close` the descriptor is nobody's. -/
theorem Consistent.closes {world : World} (consistent : Consistent world) {thread fd : Nat}
    (here : world.phases thread = .unregistered fd) :
    Consistent { world.goes thread .idle with
      os := world.os.filter (· ≠ fd)
      opened := world.opened.filter (· ≠ fd) } := by
  have was : (world.phases thread).fd = some fd := by rw [here]; rfl
  refine ⟨consistent.table, consistent.opened.filter _, ?_⟩
  intro other
  have placed := consistent.placed other
  by_cases same : other = fd
  · subst same
    obtain ⟨-, free, tracked⟩ := placed.call thread was
    have untracked : other ∉ fds world.table := by
      rw [tracked, here]
      exact Bool.false_ne_true
    have gone : other ∉ world.opened.filter (· ≠ other) := by simp
    refine .free ?_ ⟨fun listed => absurd listed untracked, fun listed => absurd listed gone⟩
      ⟨fun listed => absurd listed free, fun listed => absurd listed gone⟩
      (fun listed => absurd listed gone)
    intro another has
    change ((world.goes thread .idle).phases another).fd = _ at has
    by_cases mine : another = thread
    · rw [mine, goes_self] at has
      cases has
    · rw [goes_other world mine] at has
      exact mine (placed.alone another thread has was)
  · have differs : some fd ≠ some other := fun found => same (Option.some.inj found).symm
    refine placed.frame Iff.rfl ?_ Iff.rfl ?_ ?_
    · simp [same]
    · intro _ listed
      simp [same, listed]
    · exact goes_frame (by rwa [was]) (fun found => nomatch found)

/-- A thread that goes on keeps everything in its place. -/
theorem Consistent.advance {world : World} (consistent : Consistent world) (fits : Fits world)
    (thread : Nat) (answer : Option (CString × UInt32)) :
    Consistent (world.advance thread answer) := by
  unfold World.advance
  split
  · exact consistent
  · rename_i c rest here
    exact consistent.registers fits here
  · rename_i fd here
    exact consistent.returns here
  · rename_i fd ip port rest here
    exact consistent.refreshes here (fds_npConnSetAddresses _ _ _ _)
  · rename_i fd ip port rest here
    exact consistent.refreshes here (fds_npConnSetAddresses _ _ _ _)
  · rename_i fd rest here
    cases answer with
    | none => exact consistent.refreshes here rfl
    | some address => exact consistent.refreshes here rfl
  · rename_i fd rest here
    cases answer with
    | none => exact consistent.refreshes here rfl
    | some address => exact consistent.refreshes here rfl
  · rename_i fd here
    exact consistent.unregisters here
  · rename_i fd here
    exact consistent.closes here

/-- Other code opens and closes descriptors of its own. -/
theorem Consistent.others {world : World} (consistent : Consistent world) {os : List Nat}
    (kept : ∀ fd ∈ world.opened, fd ∈ world.os → fd ∈ os) : Consistent { world with os := os } where
  table := consistent.table
  opened := consistent.opened
  placed fd :=
    (consistent.placed fd).frame Iff.rfl Iff.rfl Iff.rfl (kept fd) (fun _ _ => rfl)

/-- Every step keeps everything in its place. -/
theorem Consistent.step {world : World} (consistent : Consistent world) (fits : Fits world)
    {action : Action} (own : ClosesOwn world action) : Consistent (world.step action) := by
  cases action with
  | socket thread domain type protocol answer =>
    unfold World.step
    dsimp only
    split
    · rename_i choice idle
      exact consistent.opens idle choice (fun _ => rfl) _
    · exact consistent
  | accept thread domain asked peer answer =>
    unfold World.step
    dsimp only
    split
    · rename_i choice idle
      exact consistent.opens idle choice (fun _ => rfl) _
    · exact consistent
  | close thread fd =>
    unfold World.step
    dsimp only
    split
    · rename_i idle
      exact consistent.gives idle own
    · exact consistent
  | advance thread answer => exact consistent.advance fits thread answer
  | otherOpens choice => exact consistent.others fun fd _ listed => List.mem_cons_of_mem _ listed
  | otherCloses fd =>
    refine consistent.others fun other opened listed => ?_
    have differs : other ≠ fd := fun same => own (same ▸ opened)
    simp [listed, differs]

/-- In every order of the steps, the table has the open descriptors whenever no call is in
flight. -/
theorem table_tracks_opened (os : List Nat) (actions : List Action)
    (proper : AllSteps World.step Proper (.start os) actions) :
    AllStates World.step Tracks (.start os) actions := by
  have consistent : AllStates World.step Consistent (.start os) actions := allStates_of_steps
    (fun _ _ holds met => holds.step met.1 met.2) (consistent_start os) proper
  exact consistent.mono fun _ => Consistent.tracks

/-- A thread closes descriptor 3 while two others open descriptors, the second of which gets 3
again. -/
def recycled : List Action :=
  [.socket 0 2 1 0 (.ok 3), .advance 0 none, .advance 0 none, .close 1 3, .advance 1 none,
    .accept 0 2 true none (.ok 3), .advance 1 none, .socket 2 2 1 0 (.ok 3), .advance 2 none,
    .advance 0 none, .advance 2 none, .advance 0 none, .advance 0 (some ([49], 80)),
    .advance 0 none, .advance 0 none, .advance 0 none]

/-- The new descriptors are registered, the recycled number among them. -/
theorem table_tracks_recycled :
    AllStates World.step Tracks (.start [0, 1, 2]) recycled ∧
      fds (run World.step (.start [0, 1, 2]) recycled).table = [3, 4] :=
  ⟨table_tracks_opened [0, 1, 2] recycled (by decide +kernel), by decide +kernel⟩

end HwrunOs.Np
