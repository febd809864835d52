import HwrunOs.Np.Conn
import HwrunOs.Library.Tables

/-!
# The connection table is a map

Whatever calls were made, the table stands for a map from descriptors to entries with at most 512
keys. Each call does to the map what its name says and returns what can be seen of the map, so the
places of the array, and the swap of a removal, are never seen.
-/

namespace HwrunOs.Np

open HwrunOs.Bytes HwrunOs.Lookup HwrunOs.Tables

variable {Fd : Type} [DecidableEq Fd]

/-! ## The other calls -/

/-- `np_conn_update_state`. -/
def npConnUpdateState (table : TableOf Fd) (fd : Fd) (st : SockState) : TableOf Fd × Int :=
  match findIndex table fd with
  | some index => (table.modify index fun socket => { socket with state := st }, 0)
  | none => (table, enoent)

/-- `np_conn_clear`. -/
def npConnClear (_ : TableOf Fd) : TableOf Fd := []

/-- `np_conn_get` with a place for the entry. -/
def npConnGet (table : TableOf Fd) (fd : Fd) : Int × Option (SocketOf Fd) :=
  match findIndex table fd with
  | some index => (0, table[index]?)
  | none => (enoent, none)

/-- `np_conn_list` with an array of a size: the entries that are copied, and their count. -/
def npConnList (table : TableOf Fd) (cap : Int) : List (SocketOf Fd) × Int :=
  let n := if (table.length : Int) < cap then (table.length : Int) else cap
  (if 0 < n then table.take n.toNat else [], n)

/-- A call that changes the table. -/
inductive ConnCall (Fd : Type) where
  /-- `np_conn_register`, of a null pointer too. -/
  | register (c : Option (SocketOf Fd))
  /-- `np_conn_update_state`. -/
  | updateState (fd : Fd) (st : SockState)
  /-- `np_conn_set_addresses`, with null pointers for the addresses that stay. -/
  | setAddresses (fd : Fd) (remote here : Option (CString × UInt32))
  /-- `np_conn_unregister`. -/
  | unregister (fd : Fd)
  /-- `np_conn_clear`. -/
  | clear

/-- What a call leaves of the table, and its return code. -/
def ConnCall.onTable (table : TableOf Fd) : ConnCall Fd → TableOf Fd × Int
  | .register none => (table, einval)
  | .register (some c) => npConnRegister table c
  | .updateState fd st => npConnUpdateState table fd st
  | .setAddresses fd remote here => npConnSetAddresses table fd remote here
  | .unregister fd => npConnUnregister table fd
  | .clear => (npConnClear table, 0)

/-- The table after some calls. -/
def tableAfter (calls : List (ConnCall Fd)) : TableOf Fd :=
  calls.foldl (fun table call => (call.onTable table).1) []

/-! ## The map -/

/-- A map from descriptors to entries. -/
abbrev Connections (Fd : Type) := Finmap fun _ : Fd => SocketOf Fd

/-- Change the entry of a descriptor, if it has one. -/
def Connections.update (connections : Connections Fd) (fd : Fd)
    (change : SocketOf Fd → SocketOf Fd) : Connections Fd × Int :=
  match connections.lookup fd with
  | some socket => (connections.insert fd (change socket), 0)
  | none => (connections, enoent)

/-- What a call means for the map. -/
def ConnCall.onMap (connections : Connections Fd) : ConnCall Fd → Connections Fd × Int
  | .register none => (connections, einval)
  | .register (some c) =>
    if c.fd ∈ connections ∨ connections.keys.card < connCap then
      (connections.insert c.fd c, 0)
    else (connections, enomem)
  | .updateState fd st => connections.update fd fun socket => { socket with state := st }
  | .setAddresses fd remote here => connections.update fd (SocketOf.address remote here)
  | .unregister fd =>
    if fd ∈ connections then (connections.erase fd, 0) else (connections, enoent)
  | .clear => (∅, 0)

/-- The map after some calls. -/
def connectionsAfter (calls : List (ConnCall Fd)) : Connections Fd :=
  calls.foldl (fun connections call => (call.onMap connections).1) ∅

/-! ## Each call -/

/-- The table stands for the map, and is not too large. -/
structure Refines (table : TableOf Fd) (connections : Connections Fd) : Prop where
  /-- Each entry is there once under its descriptor. -/
  stored : Represents SocketOf.fd table connections
  /-- There are at most 512 of them. -/
  bounded : table.length ≤ connCap

/-- The changed table stands for the changed map, and the call returned the same. -/
def Agree (concrete : TableOf Fd × Int) (abstract : Connections Fd × Int) : Prop :=
  Refines concrete.1 abstract.1 ∧ concrete.2 = abstract.2

section

variable {table : TableOf Fd} {connections : Connections Fd}

/-- A descriptor that is not found has no entry. -/
theorem Refines.missing (refines : Refines table connections) {fd : Fd}
    (missed : findIndex table fd = none) : fd ∉ connections := by
  rw [refines.stored.mem_iff]
  exact findIndex_none.mp missed

/-- A descriptor that is found has the entry at its place. -/
theorem Refines.lookup {front back : TableOf Fd} {socket : SocketOf Fd}
    (refines : Refines (front ++ socket :: back) connections) :
    connections.lookup socket.fd = some socket :=
  (refines.stored.entries socket.fd socket).mpr ⟨by simp, rfl⟩

/-- An entry can be replaced by another one for its descriptor. -/
theorem Refines.replace {front back : TableOf Fd} {socket later : SocketOf Fd}
    (refines : Refines (front ++ socket :: back) connections) (same : later.fd = socket.fd) :
    Refines (front ++ later :: back) (connections.insert later.fd later) := by
  refine ⟨refines.stored.replace same, ?_⟩
  have bounded := refines.bounded
  rw [List.length_append, List.length_cons] at bounded ⊢
  exact bounded

/-- A call that changes the entry in its place, and keeps its descriptor, changes it in the map. -/
theorem Refines.modify (refines : Refines table connections) {fd : Fd}
    {change : SocketOf Fd → SocketOf Fd} (keeps : ∀ socket, (change socket).fd = socket.fd)
    {concrete : TableOf Fd × Int}
    (there : ∀ index, findIndex table fd = some index → concrete = (table.modify index change, 0))
    (missing : findIndex table fd = none → concrete = (table, enoent)) :
    Agree concrete (connections.update fd change) := by
  unfold Connections.update
  cases found : findIndex table fd with
  | none =>
    rw [Finmap.lookup_eq_none.mpr (refines.missing found), missing found]
    exact ⟨refines, rfl⟩
  | some index =>
    rw [there index found]
    obtain ⟨front, socket, back, rfl, rfl, rfl⟩ := findIndex_some found
    rw [refines.lookup]
    have inside : front.length < (front ++ socket :: back).length := by simp
    have changed : (front ++ socket :: back).modify front.length change =
        front ++ change socket :: back := by
      rw [List.modify_eq_take_cons_drop inside]
      simp
    dsimp only
    rw [changed, ← keeps socket]
    exact ⟨refines.replace (keeps socket), rfl⟩

/-- `np_conn_register` replaces the entry of a descriptor, or adds one while there is room. -/
theorem Refines.register (refines : Refines table connections) (c : SocketOf Fd) :
    Agree (npConnRegister table c) (ConnCall.onMap connections (.register (some c))) := by
  have card := refines.stored.card
  unfold npConnRegister ConnCall.onMap
  cases found : findIndex table c.fd with
  | none =>
    have fresh := refines.missing found
    by_cases full : connCap ≤ table.length
    · have refused : ¬ (c.fd ∈ connections ∨ connections.keys.card < connCap) := by
        rintro (listed | room)
        · exact fresh listed
        · omega
      dsimp only
      rw [if_pos full, if_neg refused]
      exact ⟨refines, rfl⟩
    · dsimp only
      rw [if_neg full, if_pos (.inr (by omega))]
      refine ⟨⟨refines.stored.push (findIndex_none.mp found), ?_⟩, rfl⟩
      rw [List.length_append, List.length_singleton]
      omega
  | some index =>
    obtain ⟨front, socket, back, rfl, rfl, same⟩ := findIndex_some found
    have listed : c.fd ∈ connections := by
      rw [refines.stored.mem_iff]
      simp [same]
    have stored : (front ++ socket :: back).set front.length c = front ++ c :: back := by simp
    dsimp only
    rw [if_pos (.inl listed), stored]
    exact ⟨refines.replace same.symm, rfl⟩

/-- `np_conn_unregister` takes out the entry of the descriptor, from whatever place. -/
theorem Refines.unregister (refines : Refines table connections) (fd : Fd) :
    Agree (npConnUnregister table fd) (ConnCall.onMap connections (.unregister fd)) := by
  unfold npConnUnregister ConnCall.onMap
  cases found : findIndex table fd with
  | none =>
    dsimp only
    rw [if_neg (refines.missing found)]
    exact ⟨refines, rfl⟩
  | some index =>
    obtain ⟨front, socket, back, rfl, rfl, rfl⟩ := findIndex_some found
    have listed : socket.fd ∈ connections := Finmap.mem_of_lookup_eq_some refines.lookup
    have others := takeOut_perm front back socket
    dsimp only
    rw [if_pos listed]
    refine ⟨⟨refines.stored.remove.perm others.symm, ?_⟩, rfl⟩
    have bounded := refines.bounded
    rw [List.length_append, List.length_cons] at bounded
    rw [others.length_eq, List.length_append]
    omega

/-- Every call does to the table what it means for the map, and returns the same. -/
theorem Refines.call (refines : Refines table connections) (call : ConnCall Fd) :
    Agree (call.onTable table) (call.onMap connections) := by
  cases call with
  | register c =>
    cases c with
    | none => exact ⟨refines, rfl⟩
    | some c => exact refines.register c
  | updateState fd st =>
    have keeps (socket : SocketOf Fd) : { socket with state := st }.fd = socket.fd := rfl
    refine refines.modify keeps (fun index found => ?_) fun missed => ?_
    · simp [ConnCall.onTable, npConnUpdateState, found]
    · simp [ConnCall.onTable, npConnUpdateState, missed]
  | setAddresses fd remote here =>
    refine refines.modify (fun socket => ?_) (fun index found => ?_) fun missed => ?_
    · unfold SocketOf.address
      cases remote <;> cases here <;> rfl
    · simp [ConnCall.onTable, npConnSetAddresses, found]
    · simp [ConnCall.onTable, npConnSetAddresses, missed]
  | unregister fd => exact refines.unregister fd
  | clear => exact ⟨⟨Represents.nil, Nat.zero_le _⟩, rfl⟩

/-- `np_conn_get` returns the entry of the map. -/
theorem Refines.get (refines : Refines table connections) (fd : Fd) :
    npConnGet table fd =
      if fd ∈ connections then (0, connections.lookup fd) else (enoent, none) := by
  unfold npConnGet
  cases found : findIndex table fd with
  | none => rw [if_neg (refines.missing found)]
  | some index =>
    obtain ⟨front, socket, back, rfl, rfl, rfl⟩ := findIndex_some found
    have entry := refines.lookup
    rw [if_pos (Finmap.mem_of_lookup_eq_some entry), entry]
    simp

end

/-- `np_conn_list` with room for all entries copies the whole table. -/
theorem npConnList_whole {Key : Type} {table : TableOf Key} {cap : Int}
    (room : table.length ≤ cap) :
    npConnList table cap = (table, (table.length : Int)) := by
  have count : (if (table.length : Int) < cap then (table.length : Int) else cap) =
      table.length := by
    split <;> omega
  unfold npConnList
  dsimp only
  rw [count, Int.toNat_natCast, List.take_length]
  cases table with
  | nil => rfl
  | cons first rest => rw [if_pos (by rw [List.length_cons]; omega)]

/-- With less room it copies as many entries as fit. -/
theorem npConnList_part {Key : Type} {table : TableOf Key} {cap : Int}
    (short : cap < table.length) :
    npConnList table cap = (table.take cap.toNat, cap) := by
  have count : (if (table.length : Int) < cap then (table.length : Int) else cap) = cap := by
    split <;> omega
  unfold npConnList
  dsimp only
  rw [count]
  by_cases none : 0 < cap
  · rw [if_pos none]
  · rw [if_neg none, Int.toNat_of_nonpos (by omega), List.take_zero]

/-! ## Every run -/

/-- After any calls the table stands for the map after the same calls. -/
theorem tableAfter_refines (calls : List (ConnCall Fd)) :
    Refines (tableAfter calls) (connectionsAfter calls) := by
  induction calls using List.reverseRecOn with
  | nil => exact ⟨Represents.nil, Nat.zero_le _⟩
  | append_singleton calls call ih =>
    unfold tableAfter connectionsAfter
    rw [List.foldl_append, List.foldl_append]
    exact (ih.call call).1

/-- After `np_conn_unregister` the other entries are as before, and that of the descriptor is
gone. -/
theorem Refines.get_unregister {table : TableOf Fd} {connections : Connections Fd}
    (refines : Refines table connections) (fd other : Fd) :
    npConnGet (npConnUnregister table fd).1 other =
      if other = fd then (enoent, none) else npConnGet table other := by
  by_cases listed : fd ∈ connections
  · have after := (refines.unregister fd).1
    have erased : (ConnCall.onMap connections (.unregister fd)).1 = connections.erase fd := by
      simp [ConnCall.onMap, listed]
    rw [erased] at after
    rw [after.get, refines.get]
    by_cases same : other = fd
    · rw [if_pos same, same, if_neg Finmap.notMem_erase_self]
    · rw [if_neg same, Finmap.lookup_erase_ne same]
      simp [Finmap.mem_erase, same]
  · have after := (refines.unregister fd).1
    have kept : (ConnCall.onMap connections (.unregister fd)).1 = connections := by
      simp [ConnCall.onMap, listed]
    rw [kept] at after
    rw [after.get, refines.get]
    by_cases same : other = fd
    · rw [if_pos same, same, if_neg listed]
    · rw [if_neg same]

/-- After `np_conn_register` of a descriptor in the table its entry is the new one, the others are
as before, and no further place is used. -/
theorem Refines.get_register {table : TableOf Fd} {connections : Connections Fd}
    (refines : Refines table connections) {c : SocketOf Fd} (known : c.fd ∈ connections)
    (other : Fd) :
    npConnGet (npConnRegister table c).1 other =
        (if other = c.fd then (0, some c) else npConnGet table other) ∧
      (npConnRegister table c).1.length = table.length := by
  have after := (refines.register c).1
  have stored : (ConnCall.onMap connections (.register (some c))).1 =
      connections.insert c.fd c := by
    simp [ConnCall.onMap, known]
  rw [stored] at after
  constructor
  · rw [after.get, refines.get]
    by_cases same : other = c.fd
    · rw [if_pos same, same, Finmap.lookup_insert, if_pos (Finmap.mem_insert.mpr (.inl rfl))]
    · rw [if_neg same, Finmap.lookup_insert_of_ne _ same]
      simp [Finmap.mem_insert, same]
  · rw [← after.stored.card, ← refines.stored.card]
    have keys : (connections.insert c.fd c).keys = connections.keys := by
      ext fd
      rw [Finmap.mem_keys, Finmap.mem_keys, Finmap.mem_insert]
      constructor
      · rintro (rfl | listed)
        · exact known
        · exact listed
      · exact .inr
    rw [keys]

/-- Over every run of calls the table is a map from descriptors to entries: no descriptor is twice
in it, there are at most 512, every call returns what it means for the map, an entry that is put
in or taken out leaves the others alone, and the list has each entry once. -/
theorem connections_refined (calls : List (ConnCall Fd)) :
    (fds (tableAfter calls)).Nodup ∧ (connectionsAfter calls).keys.card ≤ 512 ∧
      (tableAfter calls).length = (connectionsAfter calls).keys.card ∧
      (∀ c, c ∈ tableAfter calls ↔ (connectionsAfter calls).lookup c.fd = some c) ∧
      (∀ call : ConnCall Fd, (call.onTable (tableAfter calls)).2 =
        (call.onMap (connectionsAfter calls)).2) ∧
      (∀ fd, npConnGet (tableAfter calls) fd =
        if fd ∈ connectionsAfter calls then (0, (connectionsAfter calls).lookup fd)
        else (enoent, none)) ∧
      (∀ fd other, npConnGet (npConnUnregister (tableAfter calls) fd).1 other =
        if other = fd then (enoent, none) else npConnGet (tableAfter calls) other) ∧
      (∀ c, c.fd ∈ connectionsAfter calls → ∀ other,
        npConnGet (npConnRegister (tableAfter calls) c).1 other =
            (if other = c.fd then (0, some c) else npConnGet (tableAfter calls) other) ∧
          (npConnRegister (tableAfter calls) c).1.length = (tableAfter calls).length) ∧
      ∀ cap, npConnList (tableAfter calls) cap =
        if ((tableAfter calls).length : Int) ≤ cap then
          (tableAfter calls, ((tableAfter calls).length : Int))
        else ((tableAfter calls).take cap.toNat, cap) := by
  have refines := tableAfter_refines calls
  have card := refines.stored.card
  refine ⟨refines.stored.distinct, ?_, card.symm, ?_, ?_, refines.get, refines.get_unregister, ?_,
    ?_⟩
  · rw [card]
    exact refines.bounded
  · intro c
    rw [refines.stored.entries]
    simp
  · intro call
    exact (refines.call call).2
  · intro c known other
    exact refines.get_register known other
  · intro cap
    split
    · rename_i room
      exact npConnList_whole room
    · rename_i short
      exact npConnList_part (by omega)

end HwrunOs.Np
