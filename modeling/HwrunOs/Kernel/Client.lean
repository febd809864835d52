import HwrunOs.Kernel.Protocols
import HwrunOs.Library.Answering
import HwrunOs.Library.Tables
import Mathlib.Data.List.GetD

/-!
# Clients of the kernel

User space reaches the protocol table through `kctl.c`, which cuts its strings to the fields of a
descriptor and pads them with zeros. The kernel reads back what was put in, whatever its stack
holds behind the descriptor, so to all clients together the table is a finite map from names of at
most 63 bytes. Modules of the kernel fit in as long as the names they register do.
-/

namespace HwrunOs.Kernel

open HwrunOs.Bytes HwrunOs.Runs HwrunOs.Tables HwrunOs.Answering

/-! ## Descriptors -/

/-- A C string in memory: there is no zero in it. -/
abbrev Text := { text : CString // (0 : UInt8) ∉ text }

/-- `snprintf` into an array that is all zeros. -/
def zeroPadded (size : Nat) (text : CString) : Vector UInt8 size :=
  Vector.ofFn fun index => (snprintf size text).getD index 0

/-- The descriptor of a client after `memset` and its `snprintf`s. -/
def clientDescriptor (protocol version provider : CString) : Descriptor where
  protocol := zeroPadded 64 protocol
  version := zeroPadded 16 version
  provider := zeroPadded 64 provider
  implementation := zeroPadded 8 []

/-- The array is the text and at least one zero. -/
theorem zeroPadded_toList (size : Nat) (text : CString) :
    (zeroPadded (size + 1) text).toList =
      snprintf (size + 1) text ++
        List.replicate (size + 1 - (snprintf (size + 1) text).length) 0 := by
  have short : (snprintf (size + 1) text).length < size + 1 :=
    snprintf_length text (Nat.succ_pos size)
  apply List.ext_getElem
  · rw [Vector.length_toList, List.length_append, List.length_replicate]
    omega
  · intro index inside _
    have entry : (zeroPadded (size + 1) text).toList[index] =
        (snprintf (size + 1) text).getD index 0 := by simp [zeroPadded]
    rw [entry]
    by_cases front : index < (snprintf (size + 1) text).length
    · rw [List.getElem_append_left front]
      exact List.getD_eq_getElem _ _ front
    · rw [List.getElem_append_right (by omega), List.getElem_replicate]
      exact List.getD_eq_default _ _ (by omega)

/-- What is read from the array is the text as far as it fits, whatever is behind the array. -/
theorem bufferText_zeroPadded (size : Nat) {text : CString} (plain : (0 : UInt8) ∉ text)
    (behind : List UInt8) :
    bufferText ((zeroPadded (size + 1) text).toList ++ behind) = snprintf (size + 1) text := by
  have short : (snprintf (size + 1) text).length < size + 1 :=
    snprintf_length text (Nat.succ_pos size)
  have cut : (0 : UInt8) ∉ snprintf (size + 1) text := fun zero => plain (List.mem_of_mem_take zero)
  obtain ⟨zeros, some⟩ : ∃ zeros, size + 1 - (snprintf (size + 1) text).length = zeros + 1 :=
    ⟨_, (Nat.succ_pred_eq_of_pos (by omega)).symm⟩
  rw [zeroPadded_toList, some, List.append_assoc, bufferText_append cut, List.replicate_succ]
  exact List.append_nil _

/-! ## The client -/

/-- `HWRUN_ENOTREADY`. -/
def hwrunEnotready : Int := -(0x1000 + 2)

/-- `-EINVAL`, which is also `HWRUN_EINVAL`. -/
def einval : Int := -22

/-- The number of an error, as a call returns it. -/
def Errno.code : Errno → Int
  | .enoent => -2
  | .enomem => -12
  | .efault => -14
  | .eexist => -17
  | .einval => -22
  | .enotty => -25

/-- What `open` opened. -/
inductive OpenFile where
  /-- The device of the kernel. -/
  | device
  /-- Any other file, which does not know the commands. -/
  | other
  deriving DecidableEq

/-- `hwrun_kctl_t`. -/
structure Kctl where
  /-- `fd`, if it is not negative. -/
  fd : Option OpenFile
  /-- `device`. -/
  device : Field 128
  /-- `connected`. -/
  connected : Bool

/-- `hwrun_kctl_open_path`, and `hwrun_kctl_open` without a path, with what `open` opens. -/
def hwrunKctlOpenPath (path : Option Text) (opened : Option OpenFile) : Kctl × Int :=
  let device := Field.copy ((path.map Subtype.val).getD (lit "/dev/hwrun"))
  match opened with
  | none => (⟨none, device, false⟩, hwrunEnotready)
  | some file => (⟨some file, device, true⟩, 0)

/-- `hwrun_kctl_close`. -/
def hwrunKctlClose (client : Kctl) : Kctl := { client with fd := none, connected := false }

/-- `kctl_io`. -/
def kctlIo (client : Kctl) (table : Table) (around : Surroundings) (command : Command) :
    Except Int Reply × Table :=
  match client.fd with
  | none => (.error hwrunEnotready, table)
  | some .other => (.error Errno.enotty.code, table)
  | some .device =>
    ((hwrunIoctl table around command).1.mapError Errno.code, (hwrunIoctl table around command).2)

/-- `hwrun_kctl_desc_t` as the kernel fills it in. -/
structure KctlDesc where
  /-- `protocol`. -/
  protocol : CString
  /-- `version`. -/
  version : CString
  /-- `provider`. -/
  provider : CString
  /-- `implementation`. -/
  implementation : UInt64
  deriving DecidableEq

/-- What a call of the client leaves to its caller. -/
inductive KctlAnswer where
  /-- A return code, and nothing stored. -/
  | code (rc : Int)
  /-- Success, with a number stored. -/
  | value (value : UInt32)
  /-- Success, with a descriptor stored. -/
  | desc (desc : KctlDesc)
  deriving DecidableEq

/-- What a client makes of a reply. The kernel clears a descriptor before it answers, and it does
not put the name back. -/
def KctlAnswer.ofReply : Except Int Reply → KctlAnswer
  | .error rc => .code rc
  | .ok .done => .code 0
  | .ok (.value number) => .value number
  | .ok (.resolved answer) => .desc ⟨[], answer.version, answer.provider, answer.implementation⟩

/-- A call of the client that does not come to the device, or does. -/
def kctlCall (client : Kctl) (table : Table) (around : Surroundings) (command : Option Command) :
    Table × KctlAnswer :=
  match command with
  | none => (table, .code einval)
  | some command =>
    ((kctlIo client table around command).2, .ofReply (kctlIo client table around command).1)

/-- What `hwrun_kctl_get_abi` asks, given somewhere to store the answer. -/
def hwrunKctlGetAbi (abi : Bool) : Option Command := if abi then some .getAbi else none

/-- What `hwrun_kctl_ping` asks. -/
def hwrunKctlPing (value : Option UInt32) : Option Command := value.map .ping

/-- What `hwrun_kctl_protocol_register` asks. -/
def hwrunKctlProtocolRegister (protocol version provider : Option Text) : Option Command := do
  let protocol ← protocol
  let version ← version
  let provider ← provider
  return .register (clientDescriptor protocol version provider)

/-- What `hwrun_kctl_protocol_unregister` asks. -/
def hwrunKctlProtocolUnregister (protocol provider : Option Text) : Option Command := do
  let protocol ← protocol
  let provider ← provider
  return .unregister (clientDescriptor protocol [] provider)

/-- What `hwrun_kctl_protocol_resolve` asks, given somewhere to store the answer. -/
def hwrunKctlProtocolResolve (protocol : Option Text) (out : Bool) : Option Command := do
  let protocol ← protocol
  if out then some (.resolve (clientDescriptor protocol [] [])) else none

/-! ## The boundary -/

/-- What a client or a module of the kernel may do next. -/
inductive Request (ι : Type) where
  /-- `hwrun_kctl_open_path`. -/
  | open (client : ι) (path : Option Text) (opened : Option OpenFile)
  /-- `hwrun_kctl_close`. -/
  | close (client : ι)
  /-- `hwrun_kctl_get_abi`. -/
  | getAbi (client : ι) (abi : Bool) (around : Surroundings)
  /-- `hwrun_kctl_ping`. -/
  | ping (client : ι) (value : Option UInt32) (around : Surroundings)
  /-- `hwrun_kctl_protocol_register`. -/
  | register (client : ι) (protocol version provider : Option Text) (around : Surroundings)
  /-- `hwrun_kctl_protocol_unregister`. -/
  | unregister (client : ι) (protocol provider : Option Text) (around : Surroundings)
  /-- `hwrun_kctl_protocol_resolve`. -/
  | resolve (client : ι) (protocol : Option Text) (out : Bool) (around : Surroundings)
  /-- `hwrun_protocol_register`, in the kernel. -/
  | moduleRegister (protocol version provider : Option CString) (implementation : UInt64)
      (memory : Bool)
  /-- `hwrun_protocol_unregister`, in the kernel. -/
  | moduleUnregister (protocol provider : Option CString)

/-- The table of the kernel and the clients in front of it. -/
structure Boundary (ι : Type) where
  /-- `hwrun_protocols`. -/
  table : Table
  /-- The handles. -/
  clients : ι → Kctl

/-- What a call in the kernel returns. -/
def moduleCode : Except Errno Unit → KctlAnswer
  | .ok () => .code 0
  | .error errno => .code errno.code

variable {ι : Type} [DecidableEq ι]

/-- A command of a client. -/
def Boundary.ask (boundary : Boundary ι) (client : ι) (around : Surroundings)
    (command : Option Command) : Boundary ι × KctlAnswer :=
  let answered := kctlCall (boundary.clients client) boundary.table around command
  ({ boundary with table := answered.1 }, answered.2)

/-- One request. The lock of the table is held from the beginning of a call in the kernel to its
end. -/
def boundaryStep (boundary : Boundary ι) : Request ι → Boundary ι × KctlAnswer
  | .open client path opened =>
    let (handle, rc) := hwrunKctlOpenPath path opened
    ({ boundary with clients := Function.update boundary.clients client handle }, .code rc)
  | .close client =>
    let closed := hwrunKctlClose (boundary.clients client)
    ({ boundary with clients := Function.update boundary.clients client closed }, .code 0)
  | .getAbi client abi around => boundary.ask client around (hwrunKctlGetAbi abi)
  | .ping client value around => boundary.ask client around (hwrunKctlPing value)
  | .register client protocol version provider around =>
    boundary.ask client around (hwrunKctlProtocolRegister protocol version provider)
  | .unregister client protocol provider around =>
    boundary.ask client around (hwrunKctlProtocolUnregister protocol provider)
  | .resolve client protocol out around =>
    boundary.ask client around (hwrunKctlProtocolResolve protocol out)
  | .moduleRegister protocol version provider implementation memory =>
    let (result, table) := hwrunProtocolRegister boundary.table protocol version provider
      implementation memory
    ({ boundary with table := table }, moduleCode result)
  | .moduleUnregister protocol provider =>
    let (result, table) := hwrunProtocolUnregister boundary.table protocol provider
    ({ boundary with table := table }, moduleCode result)

/-- The kernel after it has started, with no client connected. -/
def boundary : Machine (Boundary ι) (Request ι) KctlAnswer where
  start := ⟨[], fun _ => ⟨none, Field.copy [], false⟩⟩
  step := boundaryStep

/-! ## Names -/

/-- What names stand for. -/
abbrev NameMap := Finmap fun _ : CString => Protocol

/-- A name is given. -/
def nameRegister (map : NameMap) (protocol version provider : CString) (implementation : UInt64)
    (memory : Bool) : Except Errno Unit × NameMap :=
  if protocol = [] ∨ provider = [] then (.error .einval, map)
  else if protocol ∈ map then (.error .eexist, map)
  else if memory then
    (.ok (), map.insert protocol (newProtocol protocol version provider implementation))
  else (.error .enomem, map)

/-- A name is given up by its provider. -/
def nameUnregister (map : NameMap) (protocol provider : CString) : Except Errno Unit × NameMap :=
  match map.lookup protocol with
  | none => (.error .enoent, map)
  | some entry =>
    if entry.provider.val = provider then (.ok (), map.erase protocol) else (.error .enoent, map)

/-- What a name stands for. -/
def nameResolve (map : NameMap) (protocol : CString) : Except Errno Reply :=
  match map.lookup protocol with
  | none => .error .enoent
  | some entry => .ok (.resolved ⟨entry.version.val, entry.provider.val, entry.implementation⟩)

/-- The names, and what the clients have opened. -/
structure Names (ι : Type) where
  /-- What the names stand for. -/
  map : NameMap
  /-- What a client has opened. -/
  opened : ι → Option OpenFile

/-- A command of a client about names. -/
def Names.ask (names : Names ι) (client : ι)
    (act : Option (NameMap → Except Errno Reply × NameMap)) : Names ι × KctlAnswer :=
  match act with
  | none => (names, .code einval)
  | some act =>
    match names.opened client with
    | none => (names, .code hwrunEnotready)
    | some .other => (names, .code Errno.enotty.code)
    | some .device =>
      ({ names with map := (act names.map).2 }, .ofReply ((act names.map).1.mapError Errno.code))

/-- A command that is handed over in memory of the client. -/
def handed (around : Surroundings) (act : NameMap → Except Errno Reply × NameMap) (map : NameMap) :
    Except Errno Reply × NameMap :=
  if around.copiedIn then act map else (.error .efault, map)

/-- One request about names: those of clients are cut to 63 bytes, and their versions to 15. -/
def namesStep (names : Names ι) : Request ι → Names ι × KctlAnswer
  | .open client _ opened =>
    ({ names with opened := Function.update names.opened client opened },
      .code (if opened.isSome then 0 else hwrunEnotready))
  | .close client =>
    ({ names with opened := Function.update names.opened client none }, .code 0)
  | .getAbi client abi around =>
    names.ask client (if abi then some fun map => (reply around (.value 1), map) else none)
  | .ping client value around =>
    names.ask client (value.map fun value => handed around fun map =>
      (reply around (.value (~~~ value)), map))
  | .register client protocol version provider around =>
    names.ask client do
      let protocol ← protocol
      let version ← version
      let provider ← provider
      return handed around fun map =>
        let (result, map) := nameRegister map (protocol.val.take 63) (version.val.take 15)
          (provider.val.take 63) 0 around.memory
        (result.map fun _ => .done, map)
  | .unregister client protocol provider around =>
    names.ask client do
      let protocol ← protocol
      let provider ← provider
      return handed around fun map =>
        let (result, map) := nameUnregister map (protocol.val.take 63) (provider.val.take 63)
        (result.map fun _ => .done, map)
  | .resolve client protocol out around =>
    names.ask client do
      let protocol ← protocol
      if out then some <| handed around fun map =>
        ((nameResolve map (protocol.val.take 63)).bind (reply around), map)
      else none
  | .moduleRegister protocol version provider implementation memory =>
    match protocol, version, provider with
    | some protocol, some version, some provider =>
      let (result, map) := nameRegister names.map protocol version provider implementation memory
      ({ names with map := map }, moduleCode result)
    | _, _, _ => (names, .code einval)
  | .moduleUnregister protocol provider =>
    match protocol, provider with
    | some protocol, some provider =>
      let (result, map) := nameUnregister names.map protocol provider
      ({ names with map := map }, moduleCode result)
    | _, _ => (names, .code einval)

/-- No name stands for anything, and nothing is opened. -/
def nameBoard : Machine (Names ι) (Request ι) KctlAnswer where
  start := ⟨∅, fun _ => none⟩
  step := namesStep

/-! ## The table is what the names stand for -/

/-- A table that stands for names. -/
abbrev Named (table : Table) (map : NameMap) : Prop :=
  Represents (fun entry : Protocol => entry.protocol.val) table map

/-- A name is taken in the table as in the map. -/
theorem Named.any {table : Table} {map : NameMap} (named : Named table map) (protocol : CString) :
    table.any (Protocol.isNamed protocol) = true ↔ protocol ∈ map := by
  rw [named.mem_iff, List.any_eq_true, List.mem_map]
  simp [Protocol.isNamed]

/-- A registration of a name that fits does to the table what it does to the map. -/
theorem Named.register {table : Table} {map : NameMap} (named : Named table map)
    {protocol : CString} (fits : protocol.length < 64) (version provider : CString)
    (implementation : UInt64) (memory : Bool) :
    (hwrunProtocolRegister table (some protocol) (some version) (some provider) implementation
        memory).1 = (nameRegister map protocol version provider implementation memory).1 ∧
    Named (hwrunProtocolRegister table (some protocol) (some version) (some provider)
        implementation memory).2
      (nameRegister map protocol version provider implementation memory).2 := by
  unfold hwrunProtocolRegister nameRegister
  dsimp only
  by_cases empty : protocol = [] ∨ provider = []
  · rw [if_pos empty, if_pos empty]
    exact ⟨rfl, named⟩
  rw [if_neg empty, if_neg empty]
  by_cases taken : protocol ∈ map
  · rw [if_pos ((named.any protocol).mpr taken), if_pos taken]
    exact ⟨rfl, named⟩
  rw [if_neg (mt (named.any protocol).mp taken), if_neg taken]
  cases memory with
  | false => exact ⟨rfl, named⟩
  | true =>
    refine ⟨rfl, ?_⟩
    have key : (newProtocol protocol version provider implementation).protocol.val = protocol :=
      snprintf_eq fits
    have fresh : (newProtocol protocol version provider implementation).protocol.val ∉
        table.map fun entry => entry.protocol.val := by
      rw [← named.mem_iff, key]
      exact taken
    have pushed := named.push fresh
    rw [key] at pushed
    exact pushed

/-- A name is given up in the table as in the map. -/
theorem Named.unregister {table : Table} {map : NameMap} (named : Named table map)
    (protocol provider : CString) :
    (hwrunProtocolUnregister table (some protocol) (some provider)).1 =
        (nameUnregister map protocol provider).1 ∧
    Named (hwrunProtocolUnregister table (some protocol) (some provider)).2
      (nameUnregister map protocol provider).2 := by
  have isOf_iff (entry : Protocol) : Protocol.isOf protocol provider entry = true ↔
      entry.protocol.val = protocol ∧ entry.provider.val = provider := by
    simp [Protocol.isOf]
  unfold hwrunProtocolUnregister nameUnregister
  dsimp only
  by_cases listed : table.any (Protocol.isOf protocol provider) = true
  · rw [if_pos listed]
    obtain ⟨entry, member, matched⟩ := List.any_eq_true.mp listed
    obtain ⟨record, front, back, -, first, whole, erased⟩ := List.exists_of_eraseP member matched
    obtain ⟨under, provided⟩ := (isOf_iff record).mp first
    have found : map.lookup protocol = some record := by
      rw [named.entries, whole]
      exact ⟨by simp, under⟩
    rw [found, erased]
    dsimp only
    rw [if_pos provided]
    rw [whole] at named
    have removed := named.remove
    rw [under] at removed
    exact ⟨rfl, removed⟩
  · rw [if_neg listed]
    cases found : map.lookup protocol with
    | none => exact ⟨rfl, named⟩
    | some entry =>
      obtain ⟨member, under⟩ := (named.entries protocol entry).mp found
      have other : entry.provider.val ≠ provider := fun same =>
        listed (List.any_eq_true.mpr ⟨entry, member, (isOf_iff entry).mpr ⟨under, same⟩⟩)
      dsimp only
      rw [if_neg other]
      exact ⟨rfl, named⟩

/-- A name resolves in the table as in the map. -/
theorem Named.resolve {table : Table} {map : NameMap} (named : Named table map)
    (protocol : CString) :
    (hwrunProtocolResolve table (some protocol) 16 64).map Reply.resolved =
      nameResolve map protocol := by
  have asks (entry : Protocol) : Protocol.isNamed protocol entry = true ↔
      entry.protocol.val = protocol := by
    simp [Protocol.isNamed]
  unfold hwrunProtocolResolve nameResolve
  dsimp only
  rw [named.find asks]
  cases found : map.lookup protocol with
  | none => rfl
  | some entry =>
    have version := snprintf_eq entry.version.property
    have provider := snprintf_eq entry.provider.property
    simp [version, provider, Except.map]

/-! ## Commands of clients -/

/-- A command does to a table what an act does to the names it stands for. -/
def Does (around : Surroundings) (command : Command)
    (act : NameMap → Except Errno Reply × NameMap) : Prop :=
  ∀ table map, Named table map →
    (hwrunIoctl table around command).1 = (act map).1 ∧
      Named (hwrunIoctl table around command).2 (act map).2

section Descriptors

variable {protocol version provider : CString} (plain : (0 : UInt8) ∉ protocol)
  (plainVersion : (0 : UInt8) ∉ version) (plainProvider : (0 : UInt8) ∉ provider)
  (behind : List UInt8)

include plain in
/-- The kernel reads the name that the client put in. -/
theorem clientDescriptor_protocol :
    bufferText ((clientDescriptor protocol version provider).fromProtocol behind) =
      protocol.take 63 :=
  bufferText_zeroPadded 63 plain _

include plainVersion in
/-- It reads the version. -/
theorem clientDescriptor_version :
    bufferText ((clientDescriptor protocol version provider).fromVersion behind) =
      version.take 15 :=
  bufferText_zeroPadded 15 plainVersion _

include plainProvider in
/-- It reads the provider. -/
theorem clientDescriptor_provider :
    bufferText ((clientDescriptor protocol version provider).fromProvider behind) =
      provider.take 63 :=
  bufferText_zeroPadded 63 plainProvider _

end Descriptors

/-- A command whose argument is not copied in changes nothing. -/
theorem asks_handed {around : Surroundings} {command : Command}
    {act : NameMap → Except Errno Reply × NameMap}
    (lost : around.copiedIn = false → ∀ table,
      hwrunIoctl table around command = (.error .efault, table))
    (does : around.copiedIn = true → Does around command act) :
    Does around command (handed around act) := by
  intro table map named
  unfold handed
  cases copied : around.copiedIn with
  | false =>
    rw [lost copied table]
    exact ⟨rfl, named⟩
  | true => exact does copied table map named

/-- A client registers a name as far as its field goes. -/
theorem asks_register (around : Surroundings) (protocol version provider : Text) :
    Does around (.register (clientDescriptor protocol version provider))
      (handed around fun map =>
        let (result, map) := nameRegister map (protocol.val.take 63) (version.val.take 15)
          (provider.val.take 63) 0 around.memory
        (result.map fun _ => .done, map)) := by
  apply asks_handed
  · intro lost table
    simp [hwrunIoctl, lost]
  · intro copied table map named
    have short : (protocol.val.take 63).length < 64 := by
      rw [List.length_take]
      omega
    have same := named.register short (version.val.take 15) (provider.val.take 63) 0 around.memory
    simp only [hwrunIoctl, copied, if_true, clientDescriptor_protocol protocol.property,
      clientDescriptor_version version.property, clientDescriptor_provider provider.property]
    exact ⟨congrArg (Except.map fun _ => Reply.done) same.1, same.2⟩

/-- A client gives up a name as far as its field goes. -/
theorem asks_unregister (around : Surroundings) (protocol provider : Text) :
    Does around (.unregister (clientDescriptor protocol [] provider))
      (handed around fun map =>
        let (result, map) := nameUnregister map (protocol.val.take 63) (provider.val.take 63)
        (result.map fun _ => .done, map)) := by
  apply asks_handed
  · intro lost table
    simp [hwrunIoctl, lost]
  · intro copied table map named
    have same := named.unregister (protocol.val.take 63) (provider.val.take 63)
    simp only [hwrunIoctl, copied, if_true, clientDescriptor_protocol protocol.property,
      clientDescriptor_provider provider.property]
    exact ⟨congrArg (Except.map fun _ => Reply.done) same.1, same.2⟩

/-- A client resolves a name as far as its field goes. -/
theorem asks_resolve (around : Surroundings) (protocol : Text) :
    Does around (.resolve (clientDescriptor protocol [] []))
      (handed around fun map =>
        ((nameResolve map (protocol.val.take 63)).bind (reply around), map)) := by
  apply asks_handed
  · intro lost table
    simp [hwrunIoctl, lost]
  · intro copied table map named
    have same := named.resolve (protocol.val.take 63)
    simp only [hwrunIoctl, copied, if_true, clientDescriptor_protocol protocol.property]
    rw [← same]
    cases found : hwrunProtocolResolve table (some (protocol.val.take 63)) 16 64 with
    | ok answer => exact ⟨rfl, named⟩
    | error errno =>
      refine ⟨?_, named⟩
      have unknown : errno = .enoent := by
        unfold hwrunProtocolResolve at found
        dsimp only at found
        split at found
        · cases found
        · cases found
          rfl
      rw [unknown]
      rfl

/-! ## Requests -/

/-- A boundary that stands for names. -/
structure Stands (boundary : Boundary ι) (names : Names ι) : Prop where
  /-- The table stands for what the names stand for. -/
  table : Named boundary.table names.map
  /-- The clients have opened the same. -/
  opened : ∀ client, (boundary.clients client).fd = names.opened client

/-- A name that a module registers fits its field. -/
def Request.Fits : Request ι → Prop
  | .moduleRegister (some protocol) _ _ _ _ => protocol.length < 64
  | _ => True

instance (request : Request ι) : Decidable request.Fits := by
  unfold Request.Fits
  split <;> infer_instance

variable {boundary : Boundary ι} {names : Names ι}

omit [DecidableEq ι] in
/-- A command of a client is answered alike. -/
theorem Stands.ask (stands : Stands boundary names) (client : ι) (around : Surroundings)
    {command : Option Command} {act : Option (NameMap → Except Errno Reply × NameMap)}
    (does : Option.Rel (Does around) command act) :
    Stands (boundary.ask client around command).1 (names.ask client act).1 ∧
      (boundary.ask client around command).2 = (names.ask client act).2 := by
  have opened := stands.opened client
  unfold Boundary.ask Names.ask kctlCall
  cases does with
  | none => exact ⟨stands, rfl⟩
  | @some command act does =>
    dsimp only
    unfold kctlIo
    rw [opened]
    cases names.opened client with
    | none => exact ⟨stands, rfl⟩
    | some file =>
      cases file with
      | other => exact ⟨stands, rfl⟩
      | device =>
        obtain ⟨answer, table⟩ := does boundary.table names.map stands.table
        dsimp only
        rw [answer]
        exact ⟨⟨table, stands.opened⟩, rfl⟩

/-- What a client opens or closes is what it has opened. -/
theorem Stands.update (stands : Stands boundary names) (client : ι) {handle : Kctl}
    {opened : Option OpenFile} (same : handle.fd = opened) :
    Stands { boundary with clients := Function.update boundary.clients client handle }
      { names with opened := Function.update names.opened client opened } where
  table := stands.table
  opened other := by
    dsimp only
    by_cases here : other = client
    · rw [here, Function.update_self, Function.update_self]
      exact same
    · rw [Function.update_of_ne here, Function.update_of_ne here]
      exact stands.opened other

/-- A request is answered alike. -/
theorem Stands.step (stands : Stands boundary names) (request : Request ι) (fits : request.Fits) :
    Stands (boundaryStep boundary request).1 (namesStep names request).1 ∧
      (boundaryStep boundary request).2 = (namesStep names request).2 := by
  cases request with
  | «open» client path opened =>
    cases opened with
    | none => exact ⟨stands.update client rfl, rfl⟩
    | some file => exact ⟨stands.update client rfl, rfl⟩
  | close client => exact ⟨stands.update client rfl, rfl⟩
  | getAbi client abi around =>
    apply stands.ask
    cases abi with
    | false => exact .none
    | true =>
      refine .some ?_
      intro table map named
      exact ⟨rfl, named⟩
  | ping client value around =>
    apply stands.ask
    cases value with
    | none => exact .none
    | some value =>
      refine .some (asks_handed ?_ ?_)
      · intro lost table
        simp [hwrunIoctl, lost]
      · intro copied table map named
        rw [hwrunIoctl, if_pos copied]
        exact ⟨rfl, named⟩
  | register client protocol version provider around =>
    apply stands.ask
    cases protocol with
    | none => exact .none
    | some protocol =>
      cases version with
      | none => exact .none
      | some version =>
        cases provider with
        | none => exact .none
        | some provider => exact .some (asks_register around protocol version provider)
  | unregister client protocol provider around =>
    apply stands.ask
    cases protocol with
    | none => exact .none
    | some protocol =>
      cases provider with
      | none => exact .none
      | some provider => exact .some (asks_unregister around protocol provider)
  | resolve client protocol out around =>
    apply stands.ask
    cases protocol with
    | none => exact .none
    | some protocol =>
      cases out with
      | false => exact .none
      | true => exact .some (asks_resolve around protocol)
  | moduleRegister protocol version provider implementation memory =>
    cases protocol with
    | none => exact ⟨stands, rfl⟩
    | some protocol =>
      cases version with
      | none => exact ⟨stands, rfl⟩
      | some version =>
        cases provider with
        | none => exact ⟨stands, rfl⟩
        | some provider =>
          have same := stands.table.register fits version provider implementation memory
          exact ⟨⟨same.2, stands.opened⟩, congrArg moduleCode same.1⟩
  | moduleUnregister protocol provider =>
    cases protocol with
    | none => exact ⟨stands, rfl⟩
    | some protocol =>
      cases provider with
      | none => exact ⟨stands, rfl⟩
      | some provider =>
        have same := stands.table.unregister protocol provider
        exact ⟨⟨same.2, stands.opened⟩, congrArg moduleCode same.1⟩

/-! ## Runs -/

/-- The kernel behind its boundary does what the names do. -/
theorem boundary_refines :
    Refines (Kernel.boundary (ι := ι)) nameBoard Stands fun _ request => request.Fits where
  start := ⟨Represents.nil, fun _ => rfl⟩
  next _ _ request stands fits := (stands.step request fits).1
  answer _ _ request stands fits := (stands.step request fits).2

/-- In every run of clients, and of modules whose names fit, every call returns what the names call
for. -/
theorem boundary_answers (requests : List (Request ι))
    (fits : ∀ request ∈ requests, request.Fits) :
    Kernel.boundary.answers requests = nameBoard.answers requests :=
  boundary_refines.answers (allSteps_of_mem fits _)

/-- The name of a protocol, longer than its field. -/
def longProtocol : Text := ⟨List.replicate 70 97, by decide⟩

/-- The provider of a client. -/
def clientProvider : Text := ⟨lit "git", by decide⟩

/-- Everything is copied, and there is memory. -/
def fine : Surroundings := ⟨true, true, true, [1, 2, 3]⟩

/-- One client registers a long name, and a module a short one. Another client resolves the first
63 bytes, fails to register them again, and gives them up. -/
def sharedRequests : List (Request Bool) :=
  [.open true none (some .device), .open false none (some .device),
    .register true longProtocol clientProvider clientProvider fine,
    .moduleRegister (some (lit "vfs")) (some (lit "1.0")) (some (lit "kernel")) 7 true,
    .resolve false (some ⟨List.replicate 63 97, by decide⟩) true fine,
    .register false longProtocol clientProvider clientProvider fine,
    .close true, .resolve true longProtocol true fine,
    .unregister false longProtocol clientProvider fine]

/-- They are answered as by the names. -/
theorem boundary_answers_shared :
    Kernel.boundary.answers sharedRequests = nameBoard.answers sharedRequests ∧
      Kernel.boundary.answers sharedRequests =
        [.code 0, .code 0, .code 0, .code 0, .desc ⟨[], lit "git", lit "git", 0⟩,
          .code Errno.eexist.code, .code 0, .code hwrunEnotready, .code 0] :=
  ⟨boundary_answers sharedRequests (by decide), by decide +kernel⟩

end HwrunOs.Kernel
