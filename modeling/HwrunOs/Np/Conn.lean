import HwrunOs.Library.Bytes
import HwrunOs.Library.Lookup

/-!
# The connection table

The table is an array of fixed size with a count. An entry is found by its descriptor, a new one
goes to the end, and one that is taken out is overwritten with the last. Every call holds the lock
from its beginning to its end. The table only compares descriptors, so it is stated over any type
of them.
-/

namespace HwrunOs.Np

open HwrunOs.Bytes HwrunOs.Lookup

variable {Fd : Type} [DecidableEq Fd]

/-! ## Entries -/

/-- `np_sock_state_t`. -/
inductive SockState where
  | unconnected
  | connecting
  | connected
  | disconnecting
  | listening
  deriving DecidableEq

/-- `np_socket_t`, over the descriptors that it is for. -/
structure SocketOf (Fd : Type) where
  /-- `fd`. -/
  fd : Fd
  /-- `domain`. -/
  domain : Int
  /-- `type`. -/
  type : Int
  /-- `protocol`. -/
  protocol : Int
  /-- `state`. -/
  state : SockState
  /-- `local_ip`. -/
  localIp : Field 64
  /-- `local_port`. -/
  localPort : UInt32
  /-- `remote_ip`. -/
  remoteIp : Field 64
  /-- `remote_port`. -/
  remotePort : UInt32
  deriving DecidableEq

/-- An entry of a descriptor that the system gave out. -/
abbrev Socket := SocketOf Nat

/-- `s_conns` up to `s_count`. -/
abbrev TableOf (Fd : Type) := List (SocketOf Fd)

/-- A table of descriptors that the system gave out. -/
abbrev Table := TableOf Nat

/-- `NP_CONN_CAP`. -/
def connCap : Nat := 512

/-- `-ENOENT`. -/
def enoent : Int := -2
/-- `-ENOMEM`. -/
def enomem : Int := -12
/-- `-EINVAL`. -/
def einval : Int := -22

/-- Whether an entry is of a descriptor. -/
def SocketOf.isOf (fd : Fd) (socket : SocketOf Fd) : Bool := socket.fd == fd

/-- `find_index`. -/
def findIndex (table : TableOf Fd) (fd : Fd) : Option Nat := table.findIdx? (SocketOf.isOf fd)

/-! ## Calls -/

/-- `np_conn_register`. -/
def npConnRegister (table : TableOf Fd) (c : SocketOf Fd) : TableOf Fd × Int :=
  match findIndex table c.fd with
  | some index => (table.set index c, 0)
  | none => if connCap ≤ table.length then (table, enomem) else (table ++ [c], 0)

/-- The stores of `np_conn_set_addresses`. -/
def SocketOf.address (remote here : Option (CString × UInt32)) (socket : SocketOf Fd) :
    SocketOf Fd :=
  let socket := match remote with
    | some (ip, port) => { socket with remoteIp := Field.copy ip, remotePort := port }
    | none => socket
  match here with
    | some (ip, port) => { socket with localIp := Field.copy ip, localPort := port }
    | none => socket

/-- `np_conn_set_addresses`. -/
def npConnSetAddresses (table : TableOf Fd) (fd : Fd) (remote here : Option (CString × UInt32)) :
    TableOf Fd × Int :=
  match findIndex table fd with
  | some index => (table.modify index (SocketOf.address remote here), 0)
  | none => (table, enoent)

/-- `np_conn_set_local`. -/
def npConnSetLocal (table : TableOf Fd) (fd : Fd) (ip : CString) (port : UInt32) :
    TableOf Fd × Int :=
  npConnSetAddresses table fd none (some (ip, port))

/-- `np_conn_unregister`: the last entry overwrites the one taken out. -/
def npConnUnregister (table : TableOf Fd) (fd : Fd) : TableOf Fd × Int :=
  match findIndex table fd with
  | some index => (takeOut table index, 0)
  | none => (table, enoent)

/-! ## The descriptors of the table -/

/-- The descriptors in the table. -/
def fds (table : TableOf Fd) : List Fd := table.map SocketOf.fd

/-- A descriptor that is not found is not in the table. -/
theorem findIndex_none {table : TableOf Fd} {fd : Fd} :
    findIndex table fd = none ↔ fd ∉ fds table := by
  simp [findIndex, fds, SocketOf.isOf]

/-- A descriptor that is found is at its place. -/
theorem findIndex_some {table : TableOf Fd} {fd : Fd} {index : Nat}
    (found : findIndex table fd = some index) :
    ∃ front socket back, table = front ++ socket :: back ∧ front.length = index ∧
      socket.fd = fd := by
  obtain ⟨inside, matched, -⟩ := List.findIdx?_eq_some_iff_getElem.mp found
  refine ⟨table.take index, table[index], table.drop (index + 1), ?_, ?_, beq_iff_eq.mp matched⟩
  · rw [← List.drop_eq_getElem_cons inside, List.take_append_drop]
  · rw [List.length_take, Nat.min_eq_left (Nat.le_of_lt inside)]

/-- Registering adds the descriptor when there is room. -/
theorem fds_npConnRegister {table : TableOf Fd} {c : SocketOf Fd} (room : table.length < connCap) :
    fds (npConnRegister table c).1 =
      if c.fd ∈ fds table then fds table else fds table ++ [c.fd] := by
  unfold npConnRegister
  cases found : findIndex table c.fd with
  | none =>
    have full : ¬ connCap ≤ table.length := by omega
    rw [if_neg (findIndex_none.mp found)]
    dsimp only
    rw [if_neg full]
    simp [fds]
  | some index =>
    obtain ⟨front, socket, back, rfl, rfl, same⟩ := findIndex_some found
    have member : c.fd ∈ fds (front ++ socket :: back) := by simp [fds, same]
    rw [if_pos member]
    simp [fds, same]

/-- Addresses do not change the descriptors. -/
theorem fds_npConnSetAddresses (table : TableOf Fd) (fd : Fd)
    (remote here : Option (CString × UInt32)) :
    fds (npConnSetAddresses table fd remote here).1 = fds table := by
  have keeps (socket : SocketOf Fd) : (socket.address remote here).fd = socket.fd := by
    unfold SocketOf.address
    cases remote <;> cases here <;> rfl
  unfold npConnSetAddresses
  cases found : findIndex table fd with
  | none => rfl
  | some index =>
    obtain ⟨front, socket, back, rfl, rfl, -⟩ := findIndex_some found
    have inside : front.length < (front ++ socket :: back).length := by simp
    dsimp only
    rw [List.modify_eq_take_cons_drop inside]
    simp [fds, keeps]

/-- Unregistering takes one descriptor out, in some order. -/
theorem fds_npConnUnregister (table : TableOf Fd) (fd : Fd) :
    (fds (npConnUnregister table fd).1).Perm ((fds table).erase fd) := by
  unfold npConnUnregister
  cases found : findIndex table fd with
  | none => rw [List.erase_of_not_mem (findIndex_none.mp found)]
  | some index =>
    obtain ⟨front, socket, back, rfl, rfl, rfl⟩ := findIndex_some found
    have others := (takeOut_perm front back socket).map SocketOf.fd
    have erased : (socket.fd :: fds (front ++ back)).Perm (fds (front ++ socket :: back)) := by
      rw [fds, fds, List.map_append, List.map_append, List.map_cons]
      exact List.perm_middle.symm
    refine others.trans ?_
    have first := erased.erase socket.fd
    rwa [List.erase_cons_head] at first

end HwrunOs.Np
