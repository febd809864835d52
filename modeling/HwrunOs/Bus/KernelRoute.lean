import HwrunOs.Bus.Metaproto

/-!
# Resolution with the kernel as fallback

`hw_bus_resolve_ex` asks the registry of the process first and the kernel second. The kernel's
answer crosses three layers: `hwrun_ioctl` rewrites the descriptor it was given, `kctl.c` copies
it, and `bus.c` builds a route from it. Whether the device can be opened and whether the copies
between user and kernel memory succeed is an input.
-/

namespace HwrunOs.Bus

open HwrunOs.Bytes

/-- `-EFAULT`. -/
def efault : Int := -14

/-! ## The kernel -/

/-- `struct hwrun_protocol`: a registered protocol has a name and a provider. -/
structure KernelProtocol where
  /-- Protocol name. -/
  protocol : Field 64
  /-- Version text. -/
  version : Field 16
  /-- Name of the provider. -/
  provider : Field 64
  /-- Address of the implementation, or null. -/
  implementation : Option Addr
  /-- `hwrun_protocol_register` refuses an empty name. -/
  named : protocol.val ≠ []
  /-- `hwrun_protocol_register` refuses an empty provider. -/
  provided : provider.val ≠ []

/-- `hwrun_protocol_register` in the kernel: a new entry at the end of the list. -/
def hwrunProtocolRegister (table : List KernelProtocol) (protocol version provider : CString)
    (implementation : Option Addr) (alloc : Bool) : List KernelProtocol × Int :=
  if filled : protocol ≠ [] ∧ provider ≠ [] then
    if table.any fun entry => entry.protocol.val == protocol then (table, hwrunEexist)
    else if alloc then
      (table ++ [{
        protocol := Field.copy protocol
        version := Field.copy version
        provider := Field.copy provider
        implementation := implementation
        named := copy_ne_nil filled.1
        provided := copy_ne_nil filled.2 }], hwrunOk)
    else (table, hwrunEnomem)
  else (table, hwrunEinval)

/-- `hwrun_protocol_resolve` in the kernel: version, provider and implementation of the first
entry with the name. -/
def hwrunProtocolResolve (table : List KernelProtocol) (protocol : CString) :
    Option (Field 16 × Field 64 × Option Addr) :=
  (table.find? fun entry => entry.protocol.val == protocol).map fun entry =>
    (Field.copy entry.version.val, Field.copy entry.provider.val, entry.implementation)

/-- `struct hwrun_protocol_desc`, laid out as `hwrun_kctl_desc_t`. -/
structure Descriptor where
  /-- Protocol name. -/
  protocol : Field 64
  /-- Version text. -/
  version : Field 16
  /-- Name of the provider. -/
  provider : Field 64
  /-- Address of the implementation, or zero. -/
  implementation : Option Addr

/-- A descriptor after `memset` with zero. -/
def Descriptor.zero : Descriptor := ⟨Field.copy [], Field.copy [], Field.copy [], none⟩

/-- The device behind an opened descriptor: the table of the kernel, and whether the copies
from and to user memory succeed. -/
structure Device where
  /-- `hwrun_protocols`. -/
  table : List KernelProtocol
  /-- `copy_from_user` copies everything. -/
  fromUser : Bool
  /-- `copy_to_user` copies everything. -/
  toUser : Bool

/-- The case `HWRUN_IOC_PROTOCOL_RESOLVE` of `hwrun_ioctl`: the descriptor is cleared and gets
version, provider and implementation. -/
def hwrunIoctlResolve (device : Device) (argument : Descriptor) : Except Int Descriptor :=
  if !device.fromUser then .error efault
  else match hwrunProtocolResolve device.table argument.protocol.val with
    | none => .error hwrunEnoent
    | some (version, provider, implementation) =>
      let descriptor : Descriptor := { Descriptor.zero with
        version := Field.copy version.val
        provider := Field.copy provider.val
        implementation := implementation }
      if device.toUser then .ok descriptor else .error efault

/-! ## Client and bus -/

/-- `hwrun_kctl_protocol_resolve` on an opened device. -/
def hwrunKctlProtocolResolve (device : Device) (protocol : CString) : Except Int Descriptor :=
  hwrunIoctlResolve device { Descriptor.zero with protocol := Field.copy protocol }

/-- `hw_protocol_route_t` with the mark of a kernel route. -/
structure ResolvedRoute extends Route where
  /-- `kernel_backed`. -/
  kernelBacked : Bool
  deriving DecidableEq

/-- The route `hw_bus_resolve_ex` builds from a descriptor. -/
def kernelRoute (descriptor : Descriptor) : ResolvedRoute where
  protocol := snprintf 64 descriptor.protocol.val
  version := snprintf 16 descriptor.version.val
  pluginId := snprintf 64 (if descriptor.provider.val ≠ [] then descriptor.provider.val
    else lit "kernel")
  implementation := .null
  providerState := .started
  kernelBacked := true

/-- `hw_bus_resolve_ex`: the registry, then the device if it can be opened. -/
def hwBusResolveEx (registry : Registry) (device : Option Device) (protocol : CString) :
    Except Int ResolvedRoute :=
  match hwMetaprotoResolve registry protocol none with
  | some route => .ok { route with kernelBacked := false }
  | none => match device with
    | none => .error hwrunEnoent
    | some device => match hwrunKctlProtocolResolve device protocol with
      | .error _ => .error hwrunEnoent
      | .ok descriptor => .ok (kernelRoute descriptor)

/-! ## What a resolved route should say -/

/-- A version and a provider are registered for a protocol, with the registry or, for a kernel
route, with the kernel. -/
def RegisteredFor (registry : Registry) (device : Option Device) (route : ResolvedRoute)
    (protocol : CString) : Prop :=
  if route.kernelBacked then
    ∃ opened, device = some opened ∧ ∃ entry ∈ opened.table, entry.protocol.val = protocol ∧
      entry.version.val = route.version ∧ entry.provider.val = route.pluginId
  else
    ∃ entry ∈ registry.routes, entry.protocol = protocol ∧ entry.version = route.version ∧
      entry.pluginId = route.pluginId

/-- A resolved route describes the protocol that was asked for. -/
def Describes (registry : Registry) (device : Option Device) (protocol : CString) : Prop :=
  ∀ route, hwBusResolveEx registry device protocol = .ok route →
    route.protocol = protocol ∧ RegisteredFor registry device route protocol

/-- The kernel has an answer: the device opens, both copies succeed, and an entry has the name
as far as it fits the descriptor. -/
def KernelAnswers (device : Option Device) (protocol : CString) : Prop :=
  ∃ opened, device = some opened ∧ opened.fromUser = true ∧ opened.toUser = true ∧
    ∃ entry ∈ opened.table, entry.protocol.val = snprintf 64 protocol

/-! ## The layers -/

/-- The kernel resolves the names it has entries for, to the first entry's data. -/
theorem hwrunProtocolResolve_eq (table : List KernelProtocol) (protocol : CString) :
    hwrunProtocolResolve table protocol =
      (table.find? fun entry => entry.protocol.val == protocol).map fun entry =>
        (entry.version, entry.provider, entry.implementation) := by
  simp only [hwrunProtocolResolve, copy_val]

/-- The client's answer is the first entry's version and provider, without the name. -/
theorem hwrunKctlProtocolResolve_ok {device : Device} {protocol : CString}
    {descriptor : Descriptor} :
    hwrunKctlProtocolResolve device protocol = .ok descriptor ↔
      device.fromUser = true ∧ device.toUser = true ∧
        ∃ entry, (device.table.find? fun entry => entry.protocol.val == snprintf 64 protocol) =
            some entry ∧
          descriptor = ⟨Field.copy [], entry.version, entry.provider, entry.implementation⟩ := by
  have asked : (Field.copy protocol : Field 64).val = snprintf 64 protocol := rfl
  rw [hwrunKctlProtocolResolve, hwrunIoctlResolve, hwrunProtocolResolve_eq]
  simp only [asked, copy_val]
  cases device.fromUser with
  | false => simp
  | true =>
    cases device.table.find? fun entry => entry.protocol.val == snprintf 64 protocol with
    | none => simp
    | some entry =>
      cases device.toUser with
      | false => simp
      | true => simp [Descriptor.zero, eq_comm]

/-- A route built from the kernel's answer has its version and provider, and an empty name. -/
theorem kernelRoute_entry (entry : KernelProtocol) :
    kernelRoute ⟨Field.copy [], entry.version, entry.provider, entry.implementation⟩ =
      ⟨⟨[], entry.version.val, entry.provider.val, .null, .started⟩, true⟩ := by
  have version : snprintf 16 entry.version.val = entry.version.val :=
    snprintf_eq entry.version.property
  have provider : snprintf 64 entry.provider.val = entry.provider.val :=
    snprintf_eq entry.provider.property
  rw [kernelRoute]
  simp only [if_pos entry.provided, version, provider]
  rfl

/-- The kernel answers exactly when the search of its table finds an entry. -/
theorem kernelAnswers_iff {opened : Device} {protocol : CString} :
    KernelAnswers (some opened) protocol ↔
      ∃ descriptor, hwrunKctlProtocolResolve opened protocol = .ok descriptor := by
  constructor
  · rintro ⟨_, same, fromUser, toUser, entry, listed, named⟩
    obtain rfl := Option.some.inj same
    have found : (opened.table.find? fun entry =>
        entry.protocol.val == snprintf 64 protocol).isSome := by
      rw [List.find?_isSome]
      exact ⟨entry, listed, beq_iff_eq.mpr named⟩
    obtain ⟨first, search⟩ := Option.isSome_iff_exists.mp found
    exact ⟨_, hwrunKctlProtocolResolve_ok.mpr ⟨fromUser, toUser, first, search, rfl⟩⟩
  · rintro ⟨descriptor, answered⟩
    obtain ⟨fromUser, toUser, entry, search, -⟩ := hwrunKctlProtocolResolve_ok.mp answered
    have named := List.find?_some search
    exact ⟨opened, rfl, fromUser, toUser, entry, List.mem_of_find?_eq_some search,
      beq_iff_eq.mp named⟩

/-- A name that a registered kernel protocol was asked by is not empty. -/
theorem KernelAnswers.ne_nil {device : Option Device} {protocol : CString}
    (answers : KernelAnswers device protocol) : protocol ≠ [] := by
  obtain ⟨_, _, _, _, entry, _, named⟩ := answers
  rintro rfl
  exact entry.named named

/-! ## The exact condition -/

/-- A protocol of the registry is resolved to one of its routes. -/
theorem hwBusResolveEx_user {registry : Registry} (device : Option Device) {protocol : CString}
    (known : registry.registered protocol = true) :
    ∃ route ∈ registry.routes, route.protocol = protocol ∧
      hwBusResolveEx registry device protocol = .ok { route with kernelBacked := false } := by
  rw [← hwMetaprotoResolve_isSome, Option.isSome_iff_exists] at known
  obtain ⟨route, found⟩ := known
  refine ⟨route, List.mem_of_find?_eq_some found, ?_, ?_⟩
  · have matched := List.find?_some found
    simpa using matched
  · simp only [hwBusResolveEx, found]

/-- A protocol that the registry lacks is resolved exactly when the kernel answers, to a route
without a name. -/
theorem hwBusResolveEx_kernel {registry : Registry} {device : Option Device}
    {protocol : CString} (unknown : registry.registered protocol = false)
    {route : ResolvedRoute} :
    hwBusResolveEx registry device protocol = .ok route ↔
      ∃ opened, device = some opened ∧ ∃ descriptor,
        hwrunKctlProtocolResolve opened protocol = .ok descriptor ∧
          route = kernelRoute descriptor := by
  have missed : hwMetaprotoResolve registry protocol none = none := by
    rw [← hwMetaprotoResolve_isSome] at unknown
    simpa using unknown
  simp only [hwBusResolveEx, missed]
  cases device with
  | none => simp
  | some opened =>
    cases answered : hwrunKctlProtocolResolve opened protocol with
    | error rc => simp [answered]
    | ok descriptor =>
      simp only [answered, Except.ok.injEq, Option.some.injEq, exists_eq_left', eq_comm]

/-- A resolved route describes the protocol asked for exactly when the registry has it or the
kernel has no answer. -/
theorem describes_iff (registry : Registry) (device : Option Device) (protocol : CString) :
    Describes registry device protocol ↔
      registry.registered protocol = true ∨ ¬ KernelAnswers device protocol := by
  cases known : registry.registered protocol with
  | true =>
    simp only [true_or, iff_true]
    obtain ⟨route, listed, named, resolved⟩ := hwBusResolveEx_user device known
    intro other same
    obtain rfl := Except.ok.inj (resolved.symm.trans same)
    refine ⟨named, ?_⟩
    rw [RegisteredFor, if_neg (by simp)]
    exact ⟨route, listed, named, rfl, rfl⟩
  | false =>
    simp only [Bool.false_eq_true, false_or]
    constructor
    · intro describes answers
      obtain ⟨opened, rfl, -⟩ := id answers
      obtain ⟨descriptor, answered⟩ := kernelAnswers_iff.mp answers
      have resolved := (hwBusResolveEx_kernel known).mpr ⟨opened, rfl, descriptor, answered, rfl⟩
      obtain ⟨_, _, entry, _, rfl⟩ := hwrunKctlProtocolResolve_ok.mp answered
      have named := (describes _ resolved).1
      rw [kernelRoute_entry] at named
      exact answers.ne_nil named.symm
    · intro silent route resolved
      obtain ⟨opened, rfl, descriptor, answered, -⟩ := (hwBusResolveEx_kernel known).mp resolved
      exact absurd (kernelAnswers_iff.mpr ⟨descriptor, answered⟩) silent

/-- A kernel that has the protocol GPU and copies without faults. -/
def gpuDevice : Device where
  table := (hwrunProtocolRegister [] (lit "GPU") (lit "1.0") (lit "drm") none true).1
  fromUser := true
  toUser := true

/-- A protocol registered with the kernel alone is resolved to a route without a name. -/
theorem kernel_route_unnamed : ¬ Describes ⟨true, []⟩ (some gpuDevice) (lit "GPU") := by
  intro describes
  have resolved : hwBusResolveEx ⟨true, []⟩ (some gpuDevice) (lit "GPU") =
      .ok ⟨⟨[], lit "1.0", lit "drm", .null, .started⟩, true⟩ := by rfl
  have named := (describes _ resolved).1
  exact absurd named (by decide)

end HwrunOs.Bus
