import HwrunOs.Library.Bytes
import HwrunOs.Library.Lookup
import HwrunOs.Library.Runs

/-!
# Kernel protocol table

The kernel keeps a list of protocols with their providers. Modules register and unregister them
with C strings, and user space does so through the device, whose descriptors need not terminate
their strings. A name is compared as it comes and stored as far as its field goes, so the table is
the set of registrations exactly as long as names fit their fields.
-/

namespace HwrunOs.Kernel

open HwrunOs.Bytes HwrunOs.Runs

/-! ## The table -/

/-- Error codes of the calls. -/
inductive Errno where
  | enoent
  | enomem
  | efault
  | eexist
  | einval
  | enotty
  deriving DecidableEq

/-- `struct hwrun_protocol`. -/
structure Protocol where
  /-- `protocol`, of `HWRUN_PROTOCOL_NAME_MAX` bytes. -/
  protocol : Field 64
  /-- `version`, of `HWRUN_PROTOCOL_VERSION_MAX` bytes. -/
  version : Field 16
  /-- `provider`, of `HWRUN_PROVIDER_NAME_MAX` bytes. -/
  provider : Field 64
  /-- `implementation`, a pointer. -/
  implementation : UInt64
  deriving DecidableEq

/-- `hwrun_protocols`: the entries in their order. -/
abbrev Table := List Protocol

/-- `!strcmp(entry->protocol, protocol)`. -/
def Protocol.isNamed (protocol : CString) (entry : Protocol) : Bool :=
  entry.protocol.val == protocol

/-- The test of `hwrun_protocol_unregister`. -/
def Protocol.isOf (protocol provider : CString) (entry : Protocol) : Bool :=
  entry.protocol.val == protocol && entry.provider.val == provider

/-- The entry that `hwrun_protocol_register` fills in. -/
def newProtocol (protocol version provider : CString) (implementation : UInt64) : Protocol where
  protocol := Field.copy protocol
  version := Field.copy version
  provider := Field.copy provider
  implementation := implementation

/-- `hwrun_protocol_register`, with whether `kzalloc` has memory. -/
def hwrunProtocolRegister (table : Table) (protocol version provider : Option CString)
    (implementation : UInt64) (memory : Bool) : Except Errno Unit × Table :=
  match protocol, version, provider with
  | some protocol, some version, some provider =>
    if protocol = [] ∨ provider = [] then (.error .einval, table)
    else if table.any (Protocol.isNamed protocol) then (.error .eexist, table)
    else if memory then (.ok (), table ++ [newProtocol protocol version provider implementation])
    else (.error .enomem, table)
  | _, _, _ => (.error .einval, table)

/-- `hwrun_protocol_unregister`. -/
def hwrunProtocolUnregister (table : Table) (protocol provider : Option CString) :
    Except Errno Unit × Table :=
  match protocol, provider with
  | some protocol, some provider =>
    if table.any (Protocol.isOf protocol provider) then
      (.ok (), table.eraseP (Protocol.isOf protocol provider))
    else (.error .enoent, table)
  | _, _ => (.error .einval, table)

/-- What `hwrun_protocol_resolve` stores for its caller. -/
structure Resolved where
  /-- The version, as far as the caller's buffer goes. -/
  version : CString
  /-- The provider, as far as the caller's buffer goes. -/
  provider : CString
  /-- The implementation. -/
  implementation : UInt64
  deriving DecidableEq

/-- `hwrun_protocol_resolve` with somewhere to store the answer. -/
def hwrunProtocolResolve (table : Table) (protocol : Option CString)
    (versionSize providerSize : Nat) : Except Errno Resolved :=
  match protocol with
  | some protocol =>
    match table.find? (Protocol.isNamed protocol) with
    | some entry => .ok {
        version := snprintf versionSize entry.version.val
        provider := snprintf providerSize entry.provider.val
        implementation := entry.implementation }
    | none => .error .enoent
  | none => .error .einval

/-! ## The device -/

/-- `struct hwrun_protocol_desc` as it comes from user space: any bytes. -/
structure Descriptor where
  /-- `protocol`. -/
  protocol : Vector UInt8 64
  /-- `version`. -/
  version : Vector UInt8 16
  /-- `provider`. -/
  provider : Vector UInt8 64
  /-- `implementation`. -/
  implementation : Vector UInt8 8
  deriving DecidableEq

section Strings

variable (descriptor : Descriptor) (beyond : List UInt8)

/-- `descriptor.implementation` and what is behind the descriptor. -/
def Descriptor.fromImplementation : List UInt8 := descriptor.implementation.toList ++ beyond

/-- `descriptor.provider` and what is behind it. -/
def Descriptor.fromProvider : List UInt8 :=
  descriptor.provider.toList ++ descriptor.fromImplementation beyond

/-- `descriptor.version` and what is behind it. -/
def Descriptor.fromVersion : List UInt8 :=
  descriptor.version.toList ++ descriptor.fromProvider beyond

/-- `descriptor.protocol` and what is behind it. -/
def Descriptor.fromProtocol : List UInt8 :=
  descriptor.protocol.toList ++ descriptor.fromVersion beyond

end Strings

/-- A command of the device, with what user space gives it. -/
inductive Command where
  /-- `HWRUN_IOC_GET_ABI`. -/
  | getAbi
  /-- `HWRUN_IOC_PING`. -/
  | ping (value : UInt32)
  /-- `HWRUN_IOC_PROTOCOL_REGISTER`. -/
  | register (descriptor : Descriptor)
  /-- `HWRUN_IOC_PROTOCOL_UNREGISTER`. -/
  | unregister (descriptor : Descriptor)
  /-- `HWRUN_IOC_PROTOCOL_RESOLVE`. -/
  | resolve (descriptor : Descriptor)
  /-- Any other number. -/
  | other

/-- What a command finds around it. -/
structure Surroundings where
  /-- `copy_from_user` copies everything. -/
  copiedIn : Bool
  /-- `copy_to_user` copies everything. -/
  copiedOut : Bool
  /-- `kzalloc` has memory. -/
  memory : Bool
  /-- The bytes behind the descriptor on the stack. -/
  beyond : List UInt8

/-- What a command gives back to user space. -/
inductive Reply where
  /-- Nothing but success. -/
  | done
  /-- A number. -/
  | value (value : UInt32)
  /-- A descriptor with an answer in it. -/
  | resolved (answer : Resolved)
  deriving DecidableEq

/-- The end of a command that has something for user space. -/
def reply (around : Surroundings) (answer : Reply) : Except Errno Reply :=
  if around.copiedOut then .ok answer else .error .efault

/-- `hwrun_ioctl`. -/
def hwrunIoctl (table : Table) (around : Surroundings) : Command → Except Errno Reply × Table
  | .getAbi => (reply around (.value 1), table)
  | .ping value =>
    if around.copiedIn then (reply around (.value (~~~ value)), table)
    else (.error .efault, table)
  | .register descriptor =>
    if around.copiedIn then
      let (result, later) := hwrunProtocolRegister table
        (some (bufferText (descriptor.fromProtocol around.beyond)))
        (some (bufferText (descriptor.fromVersion around.beyond)))
        (some (bufferText (descriptor.fromProvider around.beyond))) 0 around.memory
      (result.map fun _ => .done, later)
    else (.error .efault, table)
  | .unregister descriptor =>
    if around.copiedIn then
      let (result, later) := hwrunProtocolUnregister table
        (some (bufferText (descriptor.fromProtocol around.beyond)))
        (some (bufferText (descriptor.fromProvider around.beyond)))
      (result.map fun _ => .done, later)
    else (.error .efault, table)
  | .resolve descriptor =>
    if around.copiedIn then
      match hwrunProtocolResolve table (some (bufferText (descriptor.fromProtocol around.beyond)))
          16 64 with
      | .ok answer => (reply around (.resolved answer), table)
      | .error _ => (.error .enoent, table)
    else (.error .efault, table)
  | .other => (.error .enotty, table)

/-! ## Runs -/

/-- A protocol with its provider as a caller registered it. -/
structure Registration where
  /-- The name. -/
  protocol : CString
  /-- The version. -/
  version : CString
  /-- The provider. -/
  provider : CString
  /-- The implementation. -/
  implementation : UInt64
  deriving DecidableEq

/-- The entry of a registration. -/
def Registration.entry (registration : Registration) : Protocol :=
  newProtocol registration.protocol registration.version registration.provider
    registration.implementation

/-- The names fit their fields. -/
def Registration.Fits (registration : Registration) : Prop :=
  registration.protocol.length < 64 ∧ registration.provider.length < 64

/-- A call from a module or through the device. -/
inductive Call where
  /-- `hwrun_protocol_register`. -/
  | register (protocol version provider : Option CString) (implementation : UInt64) (memory : Bool)
  /-- `hwrun_protocol_unregister`. -/
  | unregister (protocol provider : Option CString)
  /-- `hwrun_protocol_resolve`. -/
  | resolve (protocol : Option CString) (versionSize providerSize : Nat)
  /-- `hwrun_ioctl`. -/
  | ioctl (around : Surroundings) (command : Command)

/-- Whether a call succeeds, and the table after it. -/
def Call.act (table : Table) : Call → Bool × Table
  | .register protocol version provider implementation memory =>
    let (result, later) :=
      hwrunProtocolRegister table protocol version provider implementation memory
    (result.isOk, later)
  | .unregister protocol provider =>
    let (result, later) := hwrunProtocolUnregister table protocol provider
    (result.isOk, later)
  | .resolve protocol versionSize providerSize =>
    ((hwrunProtocolResolve table protocol versionSize providerSize).isOk, table)
  | .ioctl around command =>
    let (result, later) := hwrunIoctl table around command
    (result.isOk, later)

/-- What a call asks to register. -/
def Call.registration : Call → Option Registration
  | .register (some protocol) (some version) (some provider) implementation _ =>
    some ⟨protocol, version, provider, implementation⟩
  | .ioctl around (.register descriptor) => some {
      protocol := bufferText (descriptor.fromProtocol around.beyond)
      version := bufferText (descriptor.fromVersion around.beyond)
      provider := bufferText (descriptor.fromProvider around.beyond)
      implementation := 0 }
  | _ => none

/-- The protocol and the provider a call asks to unregister. -/
def Call.withdrawal : Call → Option (CString × CString)
  | .unregister (some protocol) (some provider) => some (protocol, provider)
  | .ioctl around (.unregister descriptor) =>
    some (bufferText (descriptor.fromProtocol around.beyond),
      bufferText (descriptor.fromProvider around.beyond))
  | _ => none

/-- Nothing outside the table makes a call fail. -/
def Call.unhindered : Call → Bool
  | .register _ _ _ _ memory => memory
  | .ioctl around (.register _) => around.copiedIn && around.memory
  | .ioctl around _ => around.copiedIn
  | _ => true

/-- The table, and what was registered with success and not unregistered with success since. -/
structure World where
  /-- `hwrun_protocols`. -/
  table : Table
  /-- The registrations that hold, oldest first. -/
  registered : List Registration

/-- Nothing is registered. -/
def World.start : World := ⟨[], []⟩

/-- The registrations after a successful call. -/
def Call.note (registered : List Registration) (call : Call) : List Registration :=
  match call.registration, call.withdrawal with
  | some registration, _ => registered ++ [registration]
  | none, some (protocol, provider) => registered.filter fun registration =>
      !(registration.protocol == protocol && registration.provider == provider)
  | none, none => registered

/-- One call. -/
def World.step (world : World) (call : Call) : World where
  table := (call.act world.table).2
  registered :=
    if (call.act world.table).1 then call.note world.registered else world.registered

/-- What users of the table rely on. -/
structure Reliable (world : World) : Prop where
  /-- No name is stored twice. -/
  distinct : (world.table.map Protocol.protocol).Nodup
  /-- What is registered resolves, to what was registered. -/
  resolves : ∀ registration ∈ world.registered, ∀ versionSize providerSize,
    hwrunProtocolResolve world.table (some registration.protocol) versionSize providerSize =
      .ok ⟨snprintf versionSize (snprintf 16 registration.version),
        snprintf providerSize registration.provider, registration.implementation⟩
  /-- Its provider unregisters it, and nothing else goes. -/
  removes : ∀ registration ∈ world.registered,
    hwrunProtocolUnregister world.table (some registration.protocol)
        (some registration.provider) =
      (.ok (), world.table.filter fun entry => entry.protocol.val ≠ registration.protocol)

/-- A call that is about to store a registration. -/
def Call.Stores (table : Table) (call : Call) (registration : Registration) : Prop :=
  call.registration = some registration ∧ call.unhindered = true ∧
    registration.protocol ≠ [] ∧ registration.provider ≠ [] ∧
    ∀ entry ∈ table, entry.protocol.val ≠ registration.protocol

/-- A registration that is about to be stored has names that fit. -/
def Call.Storable (world : World) (call : Call) : Prop :=
  ∀ registration, call.Stores world.table registration → registration.Fits

/-! ## What a call does -/

/-- A call leaves the table alone, stores a registration or takes an entry out. -/
inductive Call.Does (table : Table) (call : Call) : Prop where
  /-- Nothing changes. -/
  | nothing (same : (call.act table).2 = table)
      (silent : (call.act table).1 = true → call.registration = none ∧ call.withdrawal = none)
      (idle : ∀ registration, ¬ call.Stores table registration)
  /-- A registration is stored. -/
  | stores (registration : Registration) (stored : call.Stores table registration)
      (done : call.act table = (true, table ++ [registration.entry]))
  /-- An entry is taken out. -/
  | removes (protocol provider : CString) (asked : call.registration = none)
      (withdrawn : call.withdrawal = some (protocol, provider))
      (found : table.any (Protocol.isOf protocol provider) = true)
      (done : call.act table = (true, table.eraseP (Protocol.isOf protocol provider)))

/-- The name of no entry. -/
theorem any_isNamed {table : Table} {protocol : CString} :
    table.any (Protocol.isNamed protocol) = false ↔
      ∀ entry ∈ table, entry.protocol.val ≠ protocol := by
  simp [Protocol.isNamed]

/-- What `hwrun_protocol_register` does with strings. -/
theorem register_some (table : Table) (registration : Registration) (memory : Bool) :
    hwrunProtocolRegister table (some registration.protocol) (some registration.version)
        (some registration.provider) registration.implementation memory =
      (.ok (), table ++ [registration.entry]) ∧
        memory = true ∧ registration.protocol ≠ [] ∧ registration.provider ≠ [] ∧
        (∀ entry ∈ table, entry.protocol.val ≠ registration.protocol) ∨
    (∃ errno, hwrunProtocolRegister table (some registration.protocol) (some registration.version)
        (some registration.provider) registration.implementation memory = (.error errno, table)) ∧
      ¬ (memory = true ∧ registration.protocol ≠ [] ∧ registration.provider ≠ [] ∧
        ∀ entry ∈ table, entry.protocol.val ≠ registration.protocol) := by
  unfold hwrunProtocolRegister
  by_cases empty : registration.protocol = [] ∨ registration.provider = []
  · refine .inr ⟨⟨.einval, if_pos empty⟩, ?_⟩
    rintro ⟨-, named, provided, -⟩
    exact empty.elim named provided
  · have filled := not_or.mp empty
    cases taken : table.any (Protocol.isNamed registration.protocol) with
    | true =>
      refine .inr ⟨⟨.eexist, ?_⟩, ?_⟩
      · show (if _ then _ else _) = _
        rw [if_neg empty, if_pos taken]
      · rintro ⟨-, -, -, free⟩
        rw [any_isNamed.mpr free] at taken
        cases taken
    | false =>
      have free : ¬ table.any (Protocol.isNamed registration.protocol) = true := by simp [taken]
      cases memory with
      | true =>
        refine .inl ⟨?_, rfl, filled.1, filled.2, any_isNamed.mp taken⟩
        show (if _ then _ else _) = _
        rw [if_neg empty, if_neg free]
        rfl
      | false =>
        refine .inr ⟨⟨.enomem, ?_⟩, by simp⟩
        show (if _ then _ else _) = _
        rw [if_neg empty, if_neg free]
        rfl

/-- The reply to user space does not change whether a call succeeds. -/
theorem isOk_map {α β : Type} (answer : α → β) (result : Except Errno α) :
    (result.map answer).isOk = result.isOk := by
  cases result <;> rfl

/-- A call that passes a registration on. -/
theorem does_register {table : Table} {call : Call} {registration : Registration}
    (asked : call.registration = some registration)
    (acts : call.act table =
      ((hwrunProtocolRegister table (some registration.protocol) (some registration.version)
        (some registration.provider) registration.implementation call.unhindered).1.isOk,
       (hwrunProtocolRegister table (some registration.protocol) (some registration.version)
        (some registration.provider) registration.implementation call.unhindered).2)) :
    call.Does table := by
  rcases register_some table registration call.unhindered with
    ⟨done, free, named, provided, absent⟩ | ⟨⟨errno, failed⟩, hindered⟩
  · refine .stores registration ⟨asked, free, named, provided, absent⟩ ?_
    rw [acts, done]
    rfl
  · rw [failed] at acts
    refine .nothing (by rw [acts]) ?_ ?_
    · intro success
      rw [acts] at success
      cases success
    · rintro other ⟨also, stores⟩
      rw [asked] at also
      cases also
      exact hindered stores

/-- A call that passes a withdrawal on. -/
theorem does_unregister {table : Table} {call : Call} {protocol provider : CString}
    (asked : call.registration = none) (withdrawn : call.withdrawal = some (protocol, provider))
    (acts : call.act table =
      ((hwrunProtocolUnregister table (some protocol) (some provider)).1.isOk,
       (hwrunProtocolUnregister table (some protocol) (some provider)).2)) : call.Does table := by
  cases found : table.any (Protocol.isOf protocol provider) with
  | true =>
    refine .removes protocol provider asked withdrawn found ?_
    simp [acts, hwrunProtocolUnregister, found, Except.isOk, Except.toBool]
  | false =>
    have failed : hwrunProtocolUnregister table (some protocol) (some provider) =
        (.error .enoent, table) := by
      simp [hwrunProtocolUnregister, found]
    rw [failed] at acts
    refine .nothing (by rw [acts]) ?_ ?_
    · intro success
      rw [acts] at success
      cases success
    · rintro other ⟨also, -⟩
      rw [asked] at also
      cases also

/-- A call that asks for neither. -/
theorem does_nothing {table : Table} {call : Call} (asked : call.registration = none)
    (kept : call.withdrawal = none) (same : (call.act table).2 = table) : call.Does table := by
  refine .nothing same (fun _ => ⟨asked, kept⟩) ?_
  rintro other ⟨also, -⟩
  rw [asked] at also
  cases also

/-- A call that fails before it reaches the table. -/
theorem does_fail {table : Table} {call : Call} (failed : call.act table = (false, table))
    (hindered : call.unhindered = false) : call.Does table := by
  refine .nothing (by rw [failed]) ?_ ?_
  · intro success
    rw [failed] at success
    cases success
  · rintro other ⟨-, free, -⟩
    rw [hindered] at free
    cases free

/-- Every call does one of the three. -/
theorem Call.does (table : Table) (call : Call) : call.Does table := by
  cases call with
  | register protocol version provider implementation memory =>
    cases protocol with
    | none => exact does_nothing rfl rfl rfl
    | some protocol =>
      cases version with
      | none => exact does_nothing rfl rfl rfl
      | some version =>
        cases provider with
        | none => exact does_nothing rfl rfl rfl
        | some provider => exact does_register rfl rfl
  | unregister protocol provider =>
    cases protocol with
    | none => exact does_nothing rfl rfl rfl
    | some protocol =>
      cases provider with
      | none => exact does_nothing rfl rfl rfl
      | some provider => exact does_unregister rfl rfl rfl
  | resolve protocol versionSize providerSize => exact does_nothing rfl rfl rfl
  | ioctl around command =>
    obtain ⟨copiedIn, copiedOut, memory, beyond⟩ := around
    cases command with
    | getAbi => exact does_nothing rfl rfl rfl
    | ping value => cases copiedIn <;> exact does_nothing rfl rfl rfl
    | register descriptor =>
      cases copiedIn with
      | false => exact does_fail rfl rfl
      | true =>
        refine does_register rfl (Prod.ext ?_ rfl)
        exact isOk_map _ _
    | unregister descriptor =>
      cases copiedIn with
      | false => exact does_fail rfl rfl
      | true =>
        refine does_unregister rfl rfl (Prod.ext ?_ rfl)
        exact isOk_map _ _
    | resolve descriptor =>
      cases copiedIn with
      | false => exact does_fail rfl rfl
      | true =>
        refine does_nothing rfl rfl ?_
        simp only [Call.act, hwrunIoctl, if_true]
        split <;> rfl
    | other => exact does_nothing rfl rfl rfl

/-! ## The table holds the registrations -/

/-- The table is the list of what was registered, no name twice and every name whole. -/
structure Faithful (world : World) : Prop where
  /-- The entries are those of the registrations. -/
  table : world.table = world.registered.map Registration.entry
  /-- No name is registered twice. -/
  distinct : (world.registered.map Registration.protocol).Nodup
  /-- The names fit. -/
  fits : ∀ registration ∈ world.registered, registration.Fits

/-- A name that fits is stored whole. -/
theorem Registration.Fits.named {registration : Registration} (fits : registration.Fits) :
    registration.entry.protocol.val = registration.protocol := snprintf_eq fits.1

/-- So is a provider. -/
theorem Registration.Fits.provided {registration : Registration} (fits : registration.Fits) :
    registration.entry.provider.val = registration.provider := snprintf_eq fits.2

section Faithful

variable {world : World} (faithful : Faithful world)
include faithful

/-- The names stored are those registered. -/
theorem Faithful.names :
    world.table.map (·.protocol.val) = world.registered.map Registration.protocol := by
  rw [faithful.table, List.map_map]
  exact List.map_congr_left fun registration held => (faithful.fits registration held).named

/-- No entry is there twice. -/
theorem Faithful.nodup : world.table.Nodup := by
  have distinct : (world.table.map (·.protocol.val)).Nodup := faithful.names ▸ faithful.distinct
  exact distinct.of_map _

/-- Entries with the same name are the same. -/
theorem Faithful.unique {entry other : Protocol} (listed : entry ∈ world.table)
    (also : other ∈ world.table) (same : entry.protocol.val = other.protocol.val) :
    entry = other := by
  have distinct : (world.table.map (·.protocol.val)).Nodup := faithful.names ▸ faithful.distinct
  exact List.inj_on_of_nodup_map distinct listed also same

/-- The entry of a registration is in the table. -/
theorem Faithful.listed {registration : Registration} (held : registration ∈ world.registered) :
    registration.entry ∈ world.table := faithful.table ▸ List.mem_map_of_mem held

/-- A search for a name has at most one match. -/
theorem Faithful.uniqueNamed (protocol : CString) :
    ∀ entry ∈ world.table, ∀ other ∈ world.table, Protocol.isNamed protocol entry = true →
      Protocol.isNamed protocol other = true → entry = other := by
  intro entry listed other also named matched
  exact faithful.unique listed also
    ((beq_iff_eq.mp named).trans (beq_iff_eq.mp matched).symm)

/-- So does a search for a name and a provider. -/
theorem Faithful.uniqueOf (protocol provider : CString) :
    ∀ entry ∈ world.table, ∀ other ∈ world.table, Protocol.isOf protocol provider entry = true →
      Protocol.isOf protocol provider other = true → entry = other := by
  intro entry listed other also named matched
  rw [Protocol.isOf, Bool.and_eq_true] at named matched
  exact faithful.uniqueNamed protocol entry listed other also named.1 matched.1

/-- A registration resolves. -/
theorem Faithful.resolves {registration : Registration} (held : registration ∈ world.registered)
    (versionSize providerSize : Nat) :
    hwrunProtocolResolve world.table (some registration.protocol) versionSize providerSize =
      .ok ⟨snprintf versionSize (snprintf 16 registration.version),
        snprintf providerSize registration.provider, registration.implementation⟩ := by
  have fits := faithful.fits registration held
  have named : Protocol.isNamed registration.protocol registration.entry = true :=
    beq_iff_eq.mpr fits.named
  have found := (Lookup.find?_eraseP_of_unique faithful.nodup
    (faithful.uniqueNamed registration.protocol) (faithful.listed held) named).1
  have provided : snprintf providerSize registration.entry.provider.val =
      snprintf providerSize registration.provider := by rw [fits.provided]
  simp only [hwrunProtocolResolve, found, provided]
  rfl

/-- A registration is taken out by its names, and nothing else is. -/
theorem Faithful.removes {registration : Registration} (held : registration ∈ world.registered) :
    hwrunProtocolUnregister world.table (some registration.protocol)
        (some registration.provider) =
      (.ok (), world.table.filter fun entry => entry.protocol.val ≠ registration.protocol) := by
  have fits := faithful.fits registration held
  have listed := faithful.listed held
  have matched : Protocol.isOf registration.protocol registration.provider registration.entry =
      true := by
    rw [Protocol.isOf, fits.named, fits.provided]
    simp
  have found : world.table.any (Protocol.isOf registration.protocol registration.provider) = true :=
    List.any_eq_true.mpr ⟨_, listed, matched⟩
  have erased := (Lookup.find?_eraseP_of_unique faithful.nodup
    (faithful.uniqueOf registration.protocol registration.provider) listed matched).2
  have others : world.table.filter
        (fun entry => !Protocol.isOf registration.protocol registration.provider entry) =
      world.table.filter fun entry => entry.protocol.val ≠ registration.protocol := by
    refine List.filter_congr ?_
    intro entry also
    by_cases same : entry.protocol.val = registration.protocol
    · have equal := faithful.unique also listed (same.trans fits.named.symm)
      rw [equal, matched]
      simp [fits.named]
    · simp [Protocol.isOf, same]
  simp only [hwrunProtocolUnregister, found, if_true]
  rw [erased, others]

/-- What holds of the table is what its users rely on. -/
theorem Faithful.reliable : Reliable world where
  distinct := by
    have distinct : (world.table.map (·.protocol.val)).Nodup := faithful.names ▸ faithful.distinct
    have same : world.table.map (·.protocol.val) =
        (world.table.map Protocol.protocol).map Subtype.val := by
      rw [List.map_map]
      rfl
    rw [same] at distinct
    exact distinct.of_map _
  resolves _ held := faithful.resolves held
  removes _ held := faithful.removes held

end Faithful

/-- A new name is registered. -/
theorem Faithful.stores {world : World} (faithful : Faithful world) {registration : Registration}
    (absent : ∀ entry ∈ world.table, entry.protocol.val ≠ registration.protocol)
    (fits : registration.Fits) :
    Faithful ⟨world.table ++ [registration.entry], world.registered ++ [registration]⟩ where
  table := by
    show world.table ++ [registration.entry] = _
    rw [List.map_append, ← faithful.table]
    rfl
  distinct := by
    show ((world.registered ++ [registration]).map Registration.protocol).Nodup
    rw [List.map_append, ← faithful.names]
    refine List.nodup_append.mpr ⟨faithful.names ▸ faithful.distinct, by simp, ?_⟩
    intro name taken other new same
    obtain ⟨entry, listed, rfl⟩ := List.mem_map.mp taken
    have given : other = registration.protocol := by simpa using new
    exact absent entry listed (same.trans given)
  fits := by
    intro other held
    rcases List.mem_append.mp held with old | new
    · exact faithful.fits other old
    · exact List.mem_singleton.mp new ▸ fits

/-- A name is given up. -/
theorem Faithful.withdraws {world : World} (faithful : Faithful world) {protocol provider : CString}
    (found : world.table.any (Protocol.isOf protocol provider) = true) :
    Faithful ⟨world.table.eraseP (Protocol.isOf protocol provider),
      world.registered.filter fun registration =>
        !(registration.protocol == protocol && registration.provider == provider)⟩ where
  table := by
    obtain ⟨entry, listed, matched⟩ := List.any_eq_true.mp found
    have erased := (Lookup.find?_eraseP_of_unique faithful.nodup
      (faithful.uniqueOf protocol provider) listed matched).2
    show world.table.eraseP _ = _
    rw [erased, faithful.table, List.filter_map]
    refine congrArg _ (List.filter_congr ?_)
    intro registration held
    have fits := faithful.fits registration held
    show (!Protocol.isOf protocol provider registration.entry) = _
    rw [Protocol.isOf, fits.named, fits.provided]
  distinct := (List.filter_sublist.map _).nodup faithful.distinct
  fits _ held := faithful.fits _ (List.mem_of_mem_filter held)

/-- A call that stores nothing too long keeps the table the list of what was registered. -/
theorem Faithful.step {world : World} (faithful : Faithful world) (call : Call)
    (storable : call.Storable world) : Faithful (world.step call) := by
  cases call.does world.table with
  | nothing same silent idle =>
    have noted : (world.step call).registered = world.registered := by
      show (if _ then _ else _) = _
      split
      · rename_i success
        obtain ⟨asked, withdrawn⟩ := silent success
        rw [Call.note, asked, withdrawn]
      · rfl
    have unchanged : world.step call = world := by
      exact congrArg₂ World.mk same noted
    rw [unchanged]
    exact faithful
  | stores registration stored done =>
    have noted : world.step call =
        ⟨world.table ++ [registration.entry], world.registered ++ [registration]⟩ := by
      simp [World.step, done, Call.note, stored.1]
    rw [noted]
    exact faithful.stores stored.2.2.2.2 (storable registration stored)
  | removes protocol provider asked withdrawn found done =>
    have noted : world.step call = ⟨world.table.eraseP (Protocol.isOf protocol provider),
        world.registered.filter fun registration =>
          !(registration.protocol == protocol && registration.provider == provider)⟩ := by
      simp [World.step, done, Call.note, asked, withdrawn]
    rw [noted]
    exact faithful.withdraws found

/-- Names that unregister a protocol fit their fields. -/
theorem unregister_fits {table : Table} {registration : Registration}
    (done : (hwrunProtocolUnregister table (some registration.protocol)
      (some registration.provider)).1 = .ok ()) : registration.Fits := by
  cases found : table.any (Protocol.isOf registration.protocol registration.provider) with
  | true =>
    obtain ⟨entry, -, matched⟩ := List.any_eq_true.mp found
    rw [Protocol.isOf, Bool.and_eq_true, beq_iff_eq, beq_iff_eq] at matched
    have named := entry.protocol.property
    have provided := entry.provider.property
    rw [matched.1] at named
    rw [matched.2] at provided
    exact ⟨named, provided⟩
  | false =>
    simp [hwrunProtocolUnregister, found] at done

/-- A name that does not fit cannot be relied on. -/
theorem unreliable_of_long {world : World} {call : Call} {registration : Registration}
    (stored : call.Stores world.table registration) (long : ¬ registration.Fits) :
    ¬ Reliable (world.step call) := by
  intro reliable
  have done : world.step call =
      ⟨world.table ++ [registration.entry], world.registered ++ [registration]⟩ := by
    cases call.does world.table with
    | nothing same silent idle => exact absurd stored (idle registration)
    | stores other also done =>
      obtain rfl := Option.some.inj (stored.1.symm.trans also.1)
      simp [World.step, done, Call.note, also.1]
    | removes protocol provider asked => exact absurd (asked.symm.trans stored.1) (by simp)
  have held : registration ∈ (world.step call).registered := by simp [done]
  exact long (unregister_fits (congrArg Prod.fst (reliable.removes registration held)))

/-! ## Every run -/

/-- Users can rely on the table in every state of a run exactly when every call that stores a
registration has names that fit their fields. -/
theorem reliable_iff_storable (calls : List Call) :
    AllStates World.step Reliable World.start calls ↔
      AllSteps World.step (fun world call => call.Storable world) World.start calls := by
  have initial : Faithful World.start := ⟨rfl, List.nodup_nil, fun _ held => nomatch held⟩
  refine allStates_iff_allSteps (fun _ faithful => faithful.reliable)
    (fun _ call faithful storable => faithful.step call storable) ?_ initial
    (allSteps_of_forall (fun _ _ => trivial) World.start calls)
  intro world call _ _ missed reliable
  refine missed fun registration stored => ?_
  by_contra long
  exact unreliable_of_long stored long reliable

/-- A name one byte longer than its field holds. -/
def longName : CString := List.replicate 64 97

/-- The world after two modules have registered it. -/
def longWorld : World :=
  run World.step World.start
    (List.replicate 2 (.register (some longName) (some []) (some (lit "vfs")) 0 true))

/-- The same long name is registered twice, is stored twice and does not resolve. -/
theorem long_name_registered_twice :
    ¬ (∀ calls : List Call, AllStates World.step Reliable World.start calls) ∧
      longWorld.registered.map Registration.protocol = [longName, longName] ∧
      ¬ (longWorld.table.map Protocol.protocol).Nodup ∧
      hwrunProtocolResolve longWorld.table (some longName) 16 64 = .error .enoent := by
  have twice : ¬ (longWorld.table.map Protocol.protocol).Nodup := by decide +kernel
  refine ⟨?_, by decide +kernel, twice, by decide +kernel⟩
  intro always
  exact twice (always _).last.distinct

end HwrunOs.Kernel
