import HwrunOs.Library.Runs
import HwrunOs.Np.ConnTable
import HwrunOs.Np.NetDev
import HwrunOs.Np.Threads

/-!
# The statistics of the sockets

`np_stats_impl` reads at most 256 entries of the connection table and sorts them by the fields
`domain` and `type`. `np_socket_impl` stores the type as it was asked for, with its flags, and
`np_accept_impl` stores none, so what is counted depends on how a descriptor came to be.
-/

namespace HwrunOs.Np

open HwrunOs.Bytes HwrunOs.Lookup HwrunOs.Runs

/-! ## The statistics -/

/-- `AF_UNIX`. -/
def afUnix : Int := 1
/-- `AF_INET`. -/
def afInet : Int := 2
/-- `AF_INET6`. -/
def afInet6 : Int := 10
/-- `SOCK_STREAM`. -/
def sockStream : Int := 1
/-- `SOCK_DGRAM`. -/
def sockDgram : Int := 2

/-- `np_stats_t`. -/
structure NpStats where
  /-- `tcp_sockets`. -/
  tcpSockets : UInt64
  /-- `udp_sockets`. -/
  udpSockets : UInt64
  /-- `unix_sockets`. -/
  unixSockets : UInt64
  /-- `total_sockets`. -/
  totalSockets : UInt64
  /-- `rx_bytes`. -/
  rxBytes : UInt64
  /-- `tx_bytes`. -/
  txBytes : UInt64
  /-- `rx_packets`. -/
  rxPackets : UInt64
  /-- `tx_packets`. -/
  txPackets : UInt64
  /-- `iface_count`. -/
  ifaceCount : UInt64

/-- The record after `memset`. -/
def NpStats.zero : NpStats := ⟨0, 0, 0, 0, 0, 0, 0, 0, 0⟩

/-- The loop over the entries, at one of them. -/
def NpStats.count (out : NpStats) (conn : Socket) : NpStats :=
  if conn.domain = afUnix then { out with unixSockets := out.unixSockets + 1 }
  else if conn.type = sockStream then { out with tcpSockets := out.tcpSockets + 1 }
  else if conn.type = sockDgram then { out with udpSockets := out.udpSockets + 1 }
  else out

/-- The loop over the interfaces, at one of them. -/
def NpStats.addInterface (out : NpStats) (ifs : DevStats) : NpStats :=
  { out with
    rxBytes := out.rxBytes + UInt64.ofNat ifs.rxBytes
    txBytes := out.txBytes + UInt64.ofNat ifs.txBytes
    rxPackets := out.rxPackets + UInt64.ofNat ifs.rxPackets
    txPackets := out.txPackets + UInt64.ofNat ifs.txPackets }

/-- `np_stats_impl`, with the interfaces that `np_get_interfaces_impl` finds, none when it
fails. -/
def npStatsImpl (table : Table) (ifs : Option (List DevStats)) : NpStats :=
  let out := (npConnList table 256).1.foldl NpStats.count .zero
  let out := { out with totalSockets := out.tcpSockets + out.udpSockets + out.unixSockets }
  match ifs with
  | some ifs =>
    ifs.foldl NpStats.addInterface { out with ifaceCount := UInt64.ofNat ifs.length }
  | none => out

/-! ## Calls -/

/-- `conn_refresh_from_fd`, with what `getsockname` and `getpeername` return. -/
def connRefreshFromFd (table : Table) (fd : Nat) (sockname peername : Option (CString × UInt32)) :
    Table :=
  let table := match sockname with
    | some (ip, port) => (npConnSetLocal table fd ip port).1
    | none => table
  match peername with
  | some remote => (npConnSetAddresses table fd (some remote) none).1
  | none => table

/-- What `connect` answers. -/
inductive Connecting where
  /-- It is connected. -/
  | done
  /-- `EINPROGRESS`, `EALREADY` or `EWOULDBLOCK`. -/
  | pending
  /-- Another error. -/
  | failed

/-- `np_connect_addr_impl`, with the address that is asked for when it is of IPv4. -/
def npConnectAddrImpl (table : Table) (fd : Nat) (answer : Connecting)
    (addr sockname peername : Option (CString × UInt32)) : Table :=
  match answer with
  | .done =>
    let table := (npConnUpdateState table fd .connected).1
    let table := match addr with
      | some remote => (npConnSetAddresses table fd (some remote) none).1
      | none => table
    if (npConnGet table fd).1 = 0 then connRefreshFromFd table fd sockname peername else table
  | .pending => (npConnUpdateState table fd .connecting).1
  | .failed => table

/-- An open socket, as the kernel knows it. -/
structure Opened where
  /-- `SO_DOMAIN`. -/
  domain : Nat
  /-- `SO_TYPE`. -/
  type : Int
  /-- The type that `np_socket_impl` was asked for, if the socket is from there. -/
  asked : Option Int

/-- The process: the table, the sockets that are open and those that were opened through these
calls. A negative number is no descriptor. -/
structure Process where
  /-- The connection table. -/
  table : Table
  /-- The open sockets. -/
  sockets : Nat → Option Opened
  /-- The descriptors from `np_socket_impl` and `np_accept_impl` that were not closed. -/
  tracked : List Nat

/-- Before the first call other sockets may be open. -/
def Process.start (others : Nat → Option Opened) : Process := ⟨[], others, []⟩

/-- A call, with the answers of the system. -/
inductive NpCall where
  /-- `np_socket_impl`, and the descriptor from `socket` unless it fails. -/
  | socket (domain type protocol : Int) (answer : Option Nat)
  /-- `np_bind_addr_impl`, and the address from `getsockname` when `bind` succeeds. -/
  | bind (fd : Nat) (sockname : Option (CString × UInt32))
  /-- `np_listen_impl` with a `listen` that succeeds. -/
  | listen (fd : Nat)
  /-- `np_accept_impl`, whether the address is asked for, and the descriptor from `accept` unless
  it fails. -/
  | accept (fd : Nat) (asked : Bool) (peer sockname peername : Option (CString × UInt32))
    (answer : Option Nat)
  /-- `np_connect_addr_impl`. -/
  | connect (fd : Nat) (answer : Connecting) (addr sockname peername : Option (CString × UInt32))
  /-- `np_shutdown_impl` of the reading side with a `shutdown` that succeeds. -/
  | shutdown (fd : Nat)
  /-- `np_close_impl`. -/
  | close (fd : Nat)

/-- The kernel opens a socket, and its entry is registered. -/
def Process.opens (process : Process) (opened : Opened) (entry : Socket) : Process where
  table := (npConnRegister process.table entry).1
  sockets := Function.update process.sockets entry.fd (some opened)
  tracked := entry.fd :: process.tracked

/-- The process after a call. The kernel gives out a number that is not open, has no domain below
zero, keeps the low four bits of a type, and gives an accepted socket the domain and the type of
the one that listens. -/
def Process.step (process : Process) : NpCall → Process
  | .socket domain type protocol (some fd) =>
    if (process.sockets fd).isSome || decide (domain < 0) then process
    else
      process.opens ⟨domain.toNat, type % 16, some type⟩ (npSocketEntry domain type protocol fd)
  | .bind fd (some (ip, port)) =>
    { process with table := (npConnSetLocal process.table fd ip port).1 }
  | .listen fd => { process with table := (npConnUpdateState process.table fd .listening).1 }
  | .accept fd asked peer sockname peername (some newfd) =>
    match process.sockets fd with
    | none => process
    | some listening =>
      if (process.sockets newfd).isSome then process
      else
        let opened := process.opens ⟨listening.domain, listening.type, none⟩
          (npAcceptEntry listening.domain newfd)
        let table :=
          if asked then
            (npConnSetAddresses opened.table newfd (some (peer.getD ([], 0))) none).1
          else opened.table
        { opened with table := connRefreshFromFd table newfd sockname peername }
  | .connect fd answer addr sockname peername =>
    { process with table := npConnectAddrImpl process.table fd answer addr sockname peername }
  | .shutdown fd => { process with table := (npConnUpdateState process.table fd .disconnecting).1 }
  | .close fd =>
    { table := (npConnUnregister process.table fd).1
      sockets := Function.update process.sockets fd none
      tracked := process.tracked.erase fd }
  | .socket _ _ _ none | .bind _ none | .accept _ _ _ _ _ none => process

/-! ## What is to be counted -/

/-- The kinds of sockets. -/
inductive SocketKind where
  /-- TCP. -/
  | tcp
  /-- UDP. -/
  | udp
  /-- UNIX domain. -/
  | unix
  deriving DecidableEq

/-- The counter of a kind. -/
def NpStats.ofKind (stats : NpStats) : SocketKind → UInt64
  | .tcp => stats.tcpSockets
  | .udp => stats.udpSockets
  | .unix => stats.unixSockets

/-- The kind of an open socket. -/
def Opened.kind (opened : Opened) : Option SocketKind :=
  if opened.domain = afUnix then some .unix
  else if opened.domain = afInet ∨ opened.domain = afInet6 then
    if opened.type = sockStream then some .tcp
    else if opened.type = sockDgram then some .udp
    else none
  else none

/-- The kind of a descriptor. -/
def Process.kind (process : Process) (fd : Nat) : Option SocketKind :=
  (process.sockets fd).bind Opened.kind

/-- The statistics are those of the tracked descriptors. -/
def StatsExact (process : Process) : Prop :=
  ∀ ifs : Option (List DevStats),
    (npStatsImpl process.table ifs).totalSockets.toNat = process.tracked.length ∧
    ∀ kind, ((npStatsImpl process.table ifs).ofKind kind).toNat =
      process.tracked.countP fun fd => process.kind fd == some kind

/-- There are at most as many descriptors as places in the table. -/
def Process.Fits (process : Process) : Prop := process.tracked.length ≤ connCap

/-- A socket of the UNIX domain, or one of IPv4 or IPv6 that `np_socket_impl` was asked for with
a plain type. -/
def Opened.Countable (opened : Opened) : Prop :=
  opened.domain = afUnix ∨ ((opened.domain = afInet ∨ opened.domain = afInet6) ∧
    (opened.asked = some sockStream ∨ opened.asked = some sockDgram))

/-- At most 256 descriptors are tracked, and all of them can be counted. -/
def Process.Countable (process : Process) : Prop :=
  process.tracked.length ≤ 256 ∧
    ∀ fd ∈ process.tracked, ∃ opened, process.sockets fd = some opened ∧ opened.Countable

/-- A call that opens a socket that can be counted, as one of at most 256, or opens none. -/
def CountableCall (process : Process) : NpCall → Prop
  | .socket domain type _ _ =>
    process.tracked.length < 256 ∧ (domain = afUnix ∨ ((domain = afInet ∨ domain = afInet6) ∧
      (type = sockStream ∨ type = sockDgram)))
  | .accept fd .. =>
    process.tracked.length < 256 ∧
      ∀ listening, process.sockets fd = some listening → listening.domain = afUnix
  | .bind .. | .listen _ | .connect .. | .shutdown _ | .close _ => True

/-! ## Counting -/

/-- The kind of an entry, as `np_stats_impl` tells it. -/
def SocketOf.kind (conn : Socket) : Option SocketKind :=
  if conn.domain = afUnix then some .unix
  else if conn.type = sockStream then some .tcp
  else if conn.type = sockDgram then some .udp
  else none

/-- An entry adds one to the counter of its kind. -/
theorem count_ofKind (out : NpStats) (conn : Socket) (kind : SocketKind) :
    (out.count conn).ofKind kind = out.ofKind kind + if conn.kind = some kind then 1 else 0 := by
  unfold NpStats.count SocketOf.kind
  split_ifs with domain stream dgram
  all_goals cases kind
  all_goals simp [NpStats.ofKind] at *

/-- The loop adds to each counter the entries of its kind. -/
theorem foldl_count_ofKind (conns : List Socket) (out : NpStats) (kind : SocketKind) :
    (conns.foldl NpStats.count out).ofKind kind =
      out.ofKind kind +
        UInt64.ofNat (conns.countP fun conn : Socket => conn.kind == some kind) := by
  induction conns generalizing out with
  | nil =>
    rw [List.foldl_nil, List.countP_nil]
    exact (UInt64.add_zero _).symm
  | cons conn rest ih =>
    rw [List.foldl_cons, ih, count_ofKind, List.countP_cons, UInt64.add_assoc]
    congr 1
    by_cases same : conn.kind = some kind
    · rw [if_pos same, if_pos (beq_iff_eq.mpr same), UInt64.ofNat_add, UInt64.add_comm]
      rfl
    · rw [if_neg same, if_neg (fun equal => same (beq_iff_eq.mp equal)), UInt64.zero_add,
        Nat.add_zero]

/-- The interfaces leave the sockets alone. -/
theorem foldl_addInterface (ifs : List DevStats) (out : NpStats) :
    (ifs.foldl NpStats.addInterface out).totalSockets = out.totalSockets ∧
      ∀ kind, (ifs.foldl NpStats.addInterface out).ofKind kind = out.ofKind kind := by
  induction ifs generalizing out with
  | nil => exact ⟨rfl, fun _ => rfl⟩
  | cons first rest ih =>
    obtain ⟨total, kinds⟩ := ih (out.addInterface first)
    refine ⟨total, ?_⟩
    intro kind
    rw [List.foldl_cons, kinds kind]
    cases kind <;> rfl

/-- The kinds are counted apart. -/
theorem countP_kinds {α : Type} (kind : α → Option SocketKind) (l : List α) :
    (l.countP fun a => kind a == some .tcp) + (l.countP fun a => kind a == some .udp) +
      (l.countP fun a => kind a == some .unix) = l.countP fun a => (kind a).isSome := by
  induction l with
  | nil => rfl
  | cons first rest ih =>
    simp only [List.countP_cons]
    cases known : kind first with
    | none => simpa using ih
    | some one =>
      cases one <;> simp <;> omega

/-- What the statistics say: they count the first 256 entries by their kind. -/
theorem npStatsImpl_counts (table : Table) (ifs : Option (List DevStats)) :
    (npStatsImpl table ifs).totalSockets.toNat =
        ((table.take 256).countP fun conn : Socket => conn.kind.isSome) ∧
      ∀ kind, ((npStatsImpl table ifs).ofKind kind).toNat =
        (table.take 256).countP fun conn : Socket => conn.kind == some kind := by
  have listed : (npConnList table 256).1 = table.take 256 := by
    by_cases room : (table.length : Int) ≤ 256
    · rw [npConnList_whole room, List.take_of_length_le (by omega)]
    · rw [npConnList_part (by omega)]
      rfl
  have few : (table.take 256).length ≤ 256 := by
    rw [List.length_take]
    exact Nat.min_le_left _ _
  have counted (kind : SocketKind) :
      (((table.take 256).foldl NpStats.count .zero).ofKind kind).toNat =
        (table.take 256).countP fun conn : Socket => conn.kind == some kind := by
    have bound := @List.countP_le_length _ (fun conn : Socket => conn.kind == some kind)
      (table.take 256)
    have zero : NpStats.zero.ofKind kind = 0 := by cases kind <;> rfl
    rw [foldl_count_ofKind, zero, UInt64.zero_add, UInt64.toNat_ofNat', Nat.mod_eq_of_lt]
    omega
  have total : (((table.take 256).foldl NpStats.count .zero).tcpSockets +
      ((table.take 256).foldl NpStats.count .zero).udpSockets +
      ((table.take 256).foldl NpStats.count .zero).unixSockets).toNat =
        (table.take 256).countP fun conn : Socket => conn.kind.isSome := by
    have tcp := counted .tcp
    have udp := counted .udp
    have unix := counted .unix
    have sum := @countP_kinds Socket SocketOf.kind (table.take 256)
    have bound := @List.countP_le_length _ (fun conn : Socket => conn.kind.isSome)
      (table.take 256)
    simp only [NpStats.ofKind] at tcp udp unix
    rw [UInt64.toNat_add, UInt64.toNat_add, tcp, udp, unix, ← sum]
    omega
  unfold npStatsImpl
  rw [listed]
  cases ifs with
  | none =>
    refine ⟨total, ?_⟩
    intro kind
    rw [← counted kind]
    cases kind <;> rfl
  | some ifs =>
    dsimp only
    rw [(foldl_addInterface ifs _).1]
    refine ⟨total, ?_⟩
    intro kind
    rw [(foldl_addInterface ifs _).2, ← counted kind]
    cases kind <;> rfl

/-! ## What a call does to the table -/

/-- What the statistics read of an entry. -/
def SocketOf.facts (conn : Socket) : Nat × Int × Int := (conn.fd, conn.domain, conn.type)

/-- Two tables agree in what the statistics read. -/
def SameFacts (table other : Table) : Prop :=
  table.map SocketOf.facts = other.map SocketOf.facts

/-- An entry that is changed in its place keeps its facts. -/
theorem sameFacts_modify (table : Table) (index : Nat) {change : Socket → Socket}
    (keeps : ∀ conn, (change conn).facts = conn.facts) :
    SameFacts (table.modify index change) table := by
  apply List.ext_getElem?
  intro place
  rw [List.getElem?_map, List.getElem?_map, List.getElem?_modify]
  cases table[place]? with
  | none => rfl
  | some conn =>
    show some (if index = place then change conn else conn).facts = some conn.facts
    split
    · exact congrArg some (keeps conn)
    · rfl

/-- The state is not among the facts. -/
theorem sameFacts_updateState (table : Table) (fd : Nat) (st : SockState) :
    SameFacts (npConnUpdateState table fd st).1 table := by
  unfold npConnUpdateState
  split
  · exact sameFacts_modify table _ fun _ => rfl
  · rfl

/-- The addresses are not among the facts. -/
theorem sameFacts_setAddresses (table : Table) (fd : Nat)
    (remote here : Option (CString × UInt32)) :
    SameFacts (npConnSetAddresses table fd remote here).1 table := by
  unfold npConnSetAddresses
  split
  · refine sameFacts_modify table _ ?_
    intro conn
    unfold SocketOf.address
    cases remote <;> cases here <;> rfl
  · rfl

/-- `conn_refresh_from_fd` sets addresses. -/
theorem sameFacts_refresh (table : Table) (fd : Nat)
    (sockname peername : Option (CString × UInt32)) :
    SameFacts (connRefreshFromFd table fd sockname peername) table := by
  unfold connRefreshFromFd
  cases sockname with
  | none =>
    cases peername with
    | none => rfl
    | some remote => exact sameFacts_setAddresses table fd _ _
  | some address =>
    have first := sameFacts_setAddresses table fd none (some address)
    cases peername with
    | none => exact first
    | some remote => exact (sameFacts_setAddresses _ fd _ _).trans first

/-- `np_connect_addr_impl` sets the state and addresses. -/
theorem sameFacts_connect (table : Table) (fd : Nat) (answer : Connecting)
    (addr sockname peername : Option (CString × UInt32)) :
    SameFacts (npConnectAddrImpl table fd answer addr sockname peername) table := by
  cases answer with
  | failed => rfl
  | pending => exact sameFacts_updateState table fd _
  | done =>
    have first := sameFacts_updateState table fd .connected
    unfold npConnectAddrImpl
    cases addr with
    | none =>
      dsimp only
      split
      · exact (sameFacts_refresh _ fd _ _).trans first
      · exact first
    | some remote =>
      have second := (sameFacts_setAddresses _ fd (some remote) none).trans first
      dsimp only
      split
      · exact (sameFacts_refresh _ fd _ _).trans second
      · exact second

/-- An unregistered descriptor has no entry left, and the others keep theirs. -/
theorem mem_npConnUnregister {table : Table} (distinct : (fds table).Nodup) {fd : Nat}
    {conn : Socket} (listed : conn ∈ (npConnUnregister table fd).1) :
    conn ∈ table ∧ conn.fd ≠ fd := by
  unfold npConnUnregister at listed
  cases found : findIndex table fd with
  | none =>
    rw [found] at listed
    refine ⟨listed, ?_⟩
    rintro rfl
    exact findIndex_none.mp found (List.mem_map_of_mem listed)
  | some index =>
    rw [found] at listed
    obtain ⟨front, socket, back, rfl, rfl, rfl⟩ := findIndex_some found
    have others := (takeOut_perm front back socket).mem_iff.mp listed
    rw [fds, List.map_append, List.map_cons, List.nodup_middle, List.nodup_cons,
      ← List.map_append] at distinct
    constructor
    · rw [List.mem_append] at others
      simp only [List.mem_append, List.mem_cons]
      tauto
    · intro same
      exact distinct.1 (same ▸ List.mem_map_of_mem others)

/-- An entry is that of a socket as it was opened. -/
structure EntryOf (conn : Socket) (opened : Opened) : Prop where
  /-- The domain is that of the socket. -/
  domain : conn.domain = opened.domain
  /-- The type is the one that was asked for, zero when it was accepted. -/
  type : conn.type = opened.asked.getD 0
  /-- The kernel takes the flags away. -/
  asked : ∀ type, opened.asked = some type → opened.type = type % 16

/-- What a call does: it leaves the facts of all entries as they are, or opens one socket, which can
be counted when the call is a countable one, or it is a `close`. -/
theorem step_cases (process : Process) (call : NpCall) :
    (∃ table, SameFacts table process.table ∧ process.step call = { process with table := table }) ∨
    (∃ opened entry table, process.sockets entry.fd = none ∧ EntryOf entry opened ∧
      SameFacts table (process.opens opened entry).table ∧
      process.step call = { process.opens opened entry with table := table } ∧
      (CountableCall process call → process.tracked.length < 256 ∧ opened.Countable)) ∨
    ∃ fd, call = .close fd := by
  have still : ∃ table, SameFacts table process.table ∧
      process = { process with table := table } := ⟨process.table, rfl, rfl⟩
  cases call with
  | socket domain type protocol answer =>
    cases answer with
    | none => exact .inl still
    | some fd =>
      simp only [Process.step]
      split
      · exact .inl still
      · rename_i given
        simp only [Bool.or_eq_true, decide_eq_true_eq, not_or, Bool.not_eq_true,
          Option.isSome_eq_false_iff, Option.isNone_iff_eq_none] at given
        have same : (domain.toNat : Int) = domain := by omega
        refine .inr (.inl ⟨⟨domain.toNat, type % 16, some type⟩,
          npSocketEntry domain type protocol fd, _, given.1, ⟨same.symm, rfl, ?_⟩, rfl, rfl, ?_⟩)
        · intro other asked
          rw [← Option.some.inj asked]
        · rintro ⟨room, known⟩
          refine ⟨room, ?_⟩
          unfold Opened.Countable
          simpa [same] using known
  | bind fd sockname =>
    cases sockname with
    | none => exact .inl still
    | some address => exact .inl ⟨_, sameFacts_setAddresses _ _ _ _, rfl⟩
  | listen fd => exact .inl ⟨_, sameFacts_updateState _ _ _, rfl⟩
  | accept fd asked peer sockname peername answer =>
    cases answer with
    | none => exact .inl still
    | some newfd =>
      simp only [Process.step]
      cases found : process.sockets fd with
      | none => exact .inl still
      | some listening =>
        dsimp only
        split
        · exact .inl still
        · rename_i fresh
          simp only [Bool.not_eq_true, Option.isSome_eq_false_iff,
            Option.isNone_iff_eq_none] at fresh
          refine .inr (.inl ⟨⟨listening.domain, listening.type, none⟩,
            npAcceptEntry listening.domain newfd, _, fresh, ⟨rfl, rfl, ?_⟩, ?_, rfl, ?_⟩)
          · intro type asked
            cases asked
          · refine (sameFacts_refresh _ _ _ _).trans ?_
            split
            · exact sameFacts_setAddresses _ _ _ _
            · rfl
          · rintro ⟨room, known⟩
            exact ⟨room, .inl (known listening found)⟩
  | connect fd answer addr sockname peername =>
    exact .inl ⟨_, sameFacts_connect _ _ _ _ _ _, rfl⟩
  | shutdown fd => exact .inl ⟨_, sameFacts_updateState _ _ _, rfl⟩
  | close fd => exact .inr (.inr ⟨fd, rfl⟩)

/-! ## The table and the kernel -/

/-- What the table stores of a descriptor is what the kernel was told. -/
structure StoredFor (sockets : Nat → Option Opened) (conn : Socket) (opened : Opened) : Prop
    extends EntryOf conn opened where
  /-- The descriptor is open. -/
  found : sockets conn.fd = some opened

/-- The table has each tracked descriptor once, with what is stored for it. -/
structure Listed (process : Process) : Prop where
  /-- The descriptors of the table. -/
  descriptors : (fds process.table).Perm process.tracked
  /-- None is tracked twice. -/
  distinct : process.tracked.Nodup
  /-- Every entry is stored as it was opened. -/
  stored : ∀ conn ∈ process.table, ∃ opened, StoredFor process.sockets conn opened

/-- Before the first call nothing is tracked. -/
theorem listed_start (others : Nat → Option Opened) : Listed (.start others) where
  descriptors := List.Perm.refl []
  distinct := List.nodup_nil
  stored := fun _ listed => absurd listed List.not_mem_nil

/-- A table with the same facts will do. -/
theorem Listed.touch {process : Process} (listed : Listed process) {table : Table}
    (same : SameFacts table process.table) : Listed { process with table := table } := by
  refine ⟨?_, listed.distinct, ?_⟩
  · have numbers := congrArg (List.map Prod.fst) same
    rw [List.map_map, List.map_map] at numbers
    show (table.map SocketOf.fd).Perm process.tracked
    have before := listed.descriptors
    rwa [fds, show (process.table.map SocketOf.fd) = table.map SocketOf.fd from
      numbers.symm] at before
  · intro conn member
    have kept : conn.facts ∈ process.table.map SocketOf.facts :=
      same ▸ List.mem_map_of_mem member
    obtain ⟨old, there, facts⟩ := List.mem_map.mp kept
    obtain ⟨opened, stored⟩ := listed.stored old there
    obtain ⟨fd, domain, type⟩ : old.fd = conn.fd ∧ old.domain = conn.domain ∧
        old.type = conn.type := by
      simpa [SocketOf.facts] using facts
    exact ⟨opened, ⟨domain ▸ stored.domain, type ▸ stored.type, stored.asked⟩, fd ▸ stored.found⟩

/-- A socket that is opened while there is room gets an entry. -/
theorem Listed.opens {process : Process} (listed : Listed process) {opened : Opened}
    {entry : Socket} (fresh : process.sockets entry.fd = none) (made : EntryOf entry opened)
    (fits : (process.opens opened entry).Fits) : Listed (process.opens opened entry) := by
  have missing : entry.fd ∉ fds process.table := by
    intro there
    obtain ⟨conn, member, same⟩ := List.mem_map.mp there
    obtain ⟨other, stored⟩ := listed.stored conn member
    have found := stored.found
    rw [same, fresh] at found
    cases found
  have untracked : entry.fd ∉ process.tracked :=
    fun there => missing (listed.descriptors.mem_iff.mpr there)
  have size := listed.descriptors.length_eq
  rw [fds, List.length_map] at size
  have room : ¬ connCap ≤ process.table.length := by
    have bound : (entry.fd :: process.tracked).length ≤ connCap := fits
    rw [List.length_cons] at bound
    omega
  have registered : (npConnRegister process.table entry).1 = process.table ++ [entry] := by
    unfold npConnRegister
    rw [findIndex_none.mpr missing]
    dsimp only
    rw [if_neg room]
  refine ⟨?_, List.nodup_cons.mpr ⟨untracked, listed.distinct⟩, ?_⟩
  · show (fds (npConnRegister process.table entry).1).Perm (entry.fd :: process.tracked)
    rw [registered, fds, List.map_append]
    exact (List.perm_append_singleton entry.fd _).trans (listed.descriptors.cons entry.fd)
  · intro conn member
    change conn ∈ (npConnRegister process.table entry).1 at member
    rw [registered, List.mem_append, List.mem_singleton] at member
    rcases member with old | rfl
    · obtain ⟨other, stored⟩ := listed.stored conn old
      have apart : conn.fd ≠ entry.fd := fun same => missing (same ▸ List.mem_map_of_mem old)
      refine ⟨other, stored.toEntryOf, ?_⟩
      show Function.update process.sockets entry.fd (some opened) conn.fd = some other
      rw [Function.update_of_ne apart, stored.found]
    · exact ⟨opened, made, Function.update_self _ _ _⟩

/-- A descriptor that is closed loses its entry. -/
theorem Listed.close {process : Process} (listed : Listed process) (fd : Nat) :
    Listed (process.step (.close fd)) := by
  have distinct : (fds process.table).Nodup := listed.descriptors.nodup_iff.mpr listed.distinct
  refine ⟨?_, listed.distinct.erase fd, ?_⟩
  · exact (fds_npConnUnregister process.table fd).trans (listed.descriptors.erase fd)
  · intro conn member
    obtain ⟨old, apart⟩ := mem_npConnUnregister distinct member
    obtain ⟨opened, stored⟩ := listed.stored conn old
    refine ⟨opened, stored.toEntryOf, ?_⟩
    show Function.update process.sockets fd none conn.fd = some opened
    rw [Function.update_of_ne apart, stored.found]

/-- Every call keeps the table and the kernel together. -/
theorem Listed.step {process : Process} (listed : Listed process) (call : NpCall)
    (fits : (process.step call).Fits) : Listed (process.step call) := by
  rcases step_cases process call with ⟨table, same, after⟩ |
    ⟨opened, entry, table, fresh, made, same, after, -⟩ | ⟨fd, rfl⟩
  · rw [after]
    exact listed.touch same
  · rw [after] at fits ⊢
    exact (listed.opens fresh made fits).touch same
  · exact listed.close fd

/-- Every run keeps them together. -/
theorem Listed.run {process : Process} (listed : Listed process) {calls : List NpCall}
    (fits : AllStates Process.step Process.Fits process calls) :
    Listed (run Process.step process calls) := by
  induction calls generalizing process with
  | nil => exact listed
  | cons call rest ih =>
    have later := fits.2
    exact ih (listed.step call (allStates_iff.mp later [] rest rfl)) later

/-! ## What is counted -/

/-- A socket that has a kind and is counted can be counted. -/
theorem StoredFor.countable {sockets : Nat → Option Opened} {conn : Socket} {opened : Opened}
    (stored : StoredFor sockets conn opened) (counted : conn.kind.isSome = true)
    (known : opened.kind.isSome = true) : opened.Countable := by
  by_cases unix : (opened.domain : Int) = afUnix
  · exact .inl unix
  have internet : (opened.domain : Int) = afInet ∨ (opened.domain : Int) = afInet6 := by
    by_contra other
    rw [Opened.kind, if_neg unix, if_neg other] at known
    cases known
  have plain : conn.type = sockStream ∨ conn.type = sockDgram := by
    by_contra other
    rw [not_or] at other
    rw [SocketOf.kind, if_neg (stored.domain ▸ unix), if_neg other.1, if_neg other.2] at counted
    cases counted
  right
  refine ⟨internet, ?_⟩
  rw [stored.type] at plain
  cases asked : opened.asked with
  | none =>
    rw [asked] at plain
    exact absurd plain (by decide)
  | some type =>
    rw [asked] at plain
    simpa using plain

/-- A socket that can be counted is counted as what it is. -/
theorem StoredFor.counted {sockets : Nat → Option Opened} {conn : Socket} {opened : Opened}
    (stored : StoredFor sockets conn opened) (countable : opened.Countable) :
    conn.kind = opened.kind ∧ conn.kind.isSome = true := by
  by_cases unix : (opened.domain : Int) = afUnix
  · rw [Opened.kind, SocketOf.kind, stored.domain, if_pos unix, if_pos unix]
    exact ⟨rfl, rfl⟩
  obtain ⟨internet, plain⟩ := countable.resolve_left unix
  rw [Opened.kind, SocketOf.kind, stored.domain, if_neg unix, if_neg unix, if_pos internet]
  rcases plain with asked | asked
  · rw [stored.asked _ asked, stored.type, asked]
    exact ⟨rfl, rfl⟩
  · rw [stored.asked _ asked, stored.type, asked]
    exact ⟨rfl, rfl⟩

/-- The entries of a kind are the tracked descriptors of that kind, when each is stored with its
kind. -/
theorem Listed.countP_kind {process : Process} (listed : Listed process) (kind : SocketKind)
    (same : ∀ conn ∈ process.table, conn.kind = process.kind conn.fd) :
    (process.table.countP fun conn : Socket => conn.kind == some kind) =
      process.tracked.countP fun fd => process.kind fd == some kind := by
  rw [← listed.descriptors.countP_eq, fds, List.countP_map]
  apply List.countP_congr
  intro conn member
  rw [Function.comp_apply, same conn member]

/-- The statistics are exact when all tracked descriptors can be counted, and only then. -/
theorem Listed.exact_iff {process : Process} (listed : Listed process) :
    StatsExact process ↔ process.Countable := by
  have size := listed.descriptors.length_eq
  rw [fds, List.length_map] at size
  constructor
  · intro exact
    obtain ⟨total, kinds⟩ := exact none
    obtain ⟨totalCounts, kindCounts⟩ := npStatsImpl_counts process.table none
    have bound := @List.countP_le_length _ (fun conn : Socket => conn.kind.isSome)
      (process.table.take 256)
    rw [List.length_take] at bound
    have few : process.table.length ≤ 256 := by omega
    rw [List.take_of_length_le few] at totalCounts kindCounts bound
    -- All entries are counted, and all descriptors have a kind.
    have counted : ∀ conn ∈ process.table, conn.kind.isSome = true :=
      List.countP_eq_length.mp (totalCounts.symm.trans (total.trans size.symm))
    have known : ∀ fd ∈ process.tracked, (process.kind fd).isSome = true := by
      apply List.countP_eq_length.mp
      rw [← countP_kinds process.kind, ← kinds .tcp, ← kinds .udp, ← kinds .unix, kindCounts .tcp,
        kindCounts .udp, kindCounts .unix, ← total, totalCounts]
      exact @countP_kinds Socket SocketOf.kind process.table
    refine ⟨by omega, ?_⟩
    intro fd member
    obtain ⟨conn, there, rfl⟩ := List.mem_map.mp (listed.descriptors.mem_iff.mpr member)
    obtain ⟨opened, stored⟩ := listed.stored conn there
    have kind := known conn.fd member
    rw [Process.kind, stored.found] at kind
    exact ⟨opened, stored.found, stored.countable (counted conn there) kind⟩
  · rintro ⟨few, countable⟩ ifs
    obtain ⟨totalCounts, kindCounts⟩ := npStatsImpl_counts process.table ifs
    rw [List.take_of_length_le (by omega)] at totalCounts kindCounts
    have entry (conn : Socket) (there : conn ∈ process.table) :
        conn.kind = process.kind conn.fd ∧ conn.kind.isSome = true := by
      obtain ⟨opened, stored⟩ := listed.stored conn there
      obtain ⟨other, found, able⟩ :=
        countable conn.fd (listed.descriptors.mem_iff.mp (List.mem_map_of_mem there))
      obtain rfl := Option.some.inj (stored.found.symm.trans found)
      rw [Process.kind, found]
      exact stored.counted able
    constructor
    · rw [totalCounts, ← size]
      exact List.countP_eq_length.mpr fun conn there => (entry conn there).2
    · intro kind
      rw [kindCounts kind]
      exact listed.countP_kind kind fun conn there => (entry conn there).1

/-! ## Runs -/

/-- One more socket that can be counted. -/
theorem Process.Countable.opens {process : Process} (countable : process.Countable)
    {opened : Opened} {entry : Socket} (room : process.tracked.length < 256)
    (able : opened.Countable) :
    (process.opens opened entry).Countable := by
  refine ⟨room, ?_⟩
  intro fd member
  by_cases same : fd = entry.fd
  · subst same
    exact ⟨opened, Function.update_self _ _ _, able⟩
  · obtain ⟨other, found, otherAble⟩ :=
      countable.2 fd ((List.mem_cons.mp member).resolve_left same)
    refine ⟨other, ?_, otherAble⟩
    show Function.update process.sockets entry.fd (some opened) fd = some other
    rw [Function.update_of_ne same, found]

/-- A call that opens only such sockets keeps all of them countable. -/
theorem Process.Countable.step {process : Process} (countable : process.Countable)
    (distinct : process.tracked.Nodup) {call : NpCall} (proper : CountableCall process call) :
    (process.step call).Countable := by
  rcases step_cases process call with ⟨table, -, after⟩ |
    ⟨opened, entry, table, -, -, -, after, able⟩ | ⟨fd, rfl⟩
  · rw [after]
    exact countable
  · rw [after]
    exact countable.opens (able proper).1 (able proper).2
  · refine ⟨Nat.le_trans List.length_erase_le countable.1, ?_⟩
    intro other member
    obtain ⟨apart, old⟩ := distinct.mem_erase_iff.mp member
    obtain ⟨opened, found, able⟩ := countable.2 other old
    refine ⟨opened, ?_, able⟩
    show Function.update process.sockets fd none other = some opened
    rw [Function.update_of_ne apart, found]

/-- Before the first call there is nothing to count. -/
theorem countable_start (others : Nat → Option Opened) : (Process.start others).Countable :=
  ⟨Nat.zero_le _, fun _ listed => absurd listed List.not_mem_nil⟩

/-- A run of such calls keeps the statistics exact. -/
theorem exact_of_countable {process : Process} (listed : Listed process)
    (countable : process.Countable) {calls : List NpCall}
    (proper : AllSteps Process.step CountableCall process calls) :
    AllStates Process.step StatsExact process calls := by
  induction calls generalizing process with
  | nil => exact listed.exact_iff.mpr countable
  | cons call rest ih =>
    have after := countable.step listed.distinct proper.1
    have fits : (process.step call).Fits := Nat.le_trans after.1 (by decide)
    exact ⟨listed.exact_iff.mpr countable, ih (listed.step call fits) after proper.2⟩

/-- After every run with at most 512 descriptors the statistics are exact if and only if at most
256 are tracked and all of them can be counted; and they are exact in every state of a run whose
calls open no others. -/
theorem statistics_iff (others : Nat → Option Opened) (calls : List NpCall) :
    (AllStates Process.step Process.Fits (.start others) calls →
      (StatsExact (run Process.step (.start others) calls) ↔
        (run Process.step (.start others) calls).Countable)) ∧
    (AllSteps Process.step CountableCall (.start others) calls →
      AllStates Process.step StatsExact (.start others) calls) :=
  ⟨fun fits => ((listed_start others).run fits).exact_iff,
    exact_of_countable (listed_start others) (countable_start others)⟩

/-- A socket of the UNIX domain, one for UDP, and the first is closed. -/
def plainCalls : List NpCall :=
  [.socket afUnix sockStream 0 (some 3), .socket afInet sockDgram 0 (some 4), .close 3]

/-- Both are counted, and then the one that is left. -/
theorem plainCalls_counted :
    StatsExact (run Process.step (.start fun _ => none) plainCalls) ∧
      AllStates Process.step StatsExact (.start fun _ => none) plainCalls := by
  have every := statistics_iff (fun _ => none) plainCalls
  have fits : AllStates Process.step Process.Fits (.start fun _ => none) plainCalls := by
    refine ⟨?_, ?_, ?_, ?_⟩
    all_goals exact Nat.le_of_ble_eq_true rfl
  have proper : AllSteps Process.step CountableCall (.start fun _ => none) plainCalls :=
    ⟨⟨by decide, .inl rfl⟩, ⟨by decide, .inr ⟨.inl rfl, .inr rfl⟩⟩, trivial, trivial⟩
  refine ⟨(every.1 fits).mpr ⟨by decide, ?_⟩, every.2 proper⟩
  intro fd member
  have only : fd = 4 := by simpa [run, plainCalls, Process.step, Process.start, Process.opens,
    npSocketEntry, afUnix, afInet] using member
  subst only
  exact ⟨⟨2, 2, some 2⟩, rfl, .inr ⟨.inl rfl, .inr rfl⟩⟩

/-- A socket for TCP listens, and a connection is accepted. -/
def serverCalls : List NpCall :=
  [.socket afInet sockStream 0 (some 3), .listen 3, .accept 3 false none none none (some 4)]

/-- The accepted connection is not counted. -/
theorem accepted_uncounted :
    ¬ ∀ (others : Nat → Option Opened) (calls : List NpCall),
      AllStates Process.step Process.Fits (.start others) calls →
        StatsExact (run Process.step (.start others) calls) := by
  intro always
  have fits : AllStates Process.step Process.Fits (.start fun _ => none) serverCalls := by
    refine ⟨?_, ?_, ?_, ?_⟩
    all_goals exact Nat.le_of_ble_eq_true rfl
  have total := (always (fun _ => none) serverCalls fits none).1
  revert total
  decide +kernel

end HwrunOs.Np
