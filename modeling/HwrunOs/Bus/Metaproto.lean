import HwrunOs.Bus.Plugin

/-!
# The protocol registry

`metaproto.c`: the linked list of protocol routes with registration, removal, resolution
and the dependency check. Names are cut to the field sizes of `hw_protocol_route_t` when a
route is made and compared uncut afterwards. A failing allocation is an input. Notification
of subscribers happens after the table was changed and outside its lock, and changes no route.
-/

namespace HwrunOs.Bus

open HwrunOs.Bytes

/-- What the implementation pointer of a route points to. -/
inductive Implementation where
  /-- The null pointer of the built-in protocols. -/
  | null
  /-- A pointer returned by a plugin's `get_interface`. -/
  | interface (address : Addr)
  /-- The descriptor of the plugin itself. -/
  | descriptor (id : CString)
  deriving DecidableEq

/-- `hw_protocol_route_t`. -/
structure Route where
  /-- Protocol name, at most 63 bytes. -/
  protocol : CString
  /-- Version text, at most 15 bytes. -/
  version : CString
  /-- Id of the providing plugin, at most 63 bytes. -/
  pluginId : CString
  /-- Implementation pointer. -/
  implementation : Implementation
  /-- `provider_state`. -/
  providerState : PluginState
  deriving DecidableEq

/-- `hw_metaproto_registry_t`: the routes, newest first. -/
structure Registry where
  /-- Set by `hw_metaproto_init`, cleared by `hw_metaproto_shutdown`. -/
  initialized : Bool
  /-- The routes in list order. -/
  routes : List Route
  deriving DecidableEq

/-- `HWRUN_PROTOCOL_VERSION`. -/
def hwrunProtocolVersion : CString := lit "1.0"

/-! ## Versions -/

/-- `version_segments`: the number of segments read, then major, minor and patch. -/
def versionSegments (version : CString) : Nat × Int × Int × Int :=
  let (major, rest) := strtoll version
  if rest.length = version.length then (0, 0, 0, 0)
  else match rest with
    | 46 :: rest =>
      let (minor, rest) := strtoll rest
      match rest with
      | 46 :: rest => (3, major, minor, (strtoll rest).1)
      | _ => (2, major, minor, 0)
    | _ => (1, major, 0, 0)

/-- `hw_proto_version_compat`: equal majors, and minor and patch not below the requested. -/
def hwProtoVersionCompat (have_ req : CString) : Bool :=
  let (hn, hma, hmi, hpa) := versionSegments have_
  let (rn, rma, rmi, rpa) := versionSegments req
  if hn = 0 ∨ rn = 0 then false
  else if hma ≠ rma then false
  else if hmi < rmi then false
  else if hmi = rmi ∧ hpa < rpa then false
  else true

/-! ## Registration -/

/-- Whether a route is the one of a protocol and a plugin. -/
def Route.isOf (protocol pluginId : CString) (route : Route) : Bool :=
  route.protocol == protocol && route.pluginId == pluginId

/-- A new route, its names cut to the field sizes. -/
def newRoute (protocol : CString) (version : Option CString) (pluginId : CString)
    (implementation : Implementation) : Route where
  protocol := snprintf 64 protocol
  version := snprintf 16 (version.getD hwrunProtocolVersion)
  pluginId := snprintf 64 pluginId
  implementation := implementation
  providerState := .started

/-- A registered route with a new implementation and, when one is given, a new version. -/
def Route.update (version : Option CString) (implementation : Implementation) (route : Route) :
    Route :=
  { route with
    implementation := implementation
    version := (version.map (snprintf 16)).getD route.version }

/-- `hw_metaproto_register`: update the first route of the pair in place, else put a new
route at the head. `alloc` is the outcome of the allocation. -/
def hwMetaprotoRegister (registry : Registry) (protocol : CString) (version : Option CString)
    (pluginId : CString) (implementation : Implementation) (alloc : Bool) : Registry × Int :=
  if !registry.initialized then (registry, hwrunEinval)
  else if registry.routes.any (Route.isOf protocol pluginId) then
    ({ registry with
        routes := registry.routes.replaceF fun route =>
          if route.isOf protocol pluginId then some (route.update version implementation)
          else none }, hwrunOk)
  else if alloc then
    ({ registry with
        routes := newRoute protocol version pluginId implementation :: registry.routes }, hwrunOk)
  else (registry, hwrunEnomem)

/-- `hw_metaproto_unregister` with a plugin id: remove the first route of the pair. -/
def hwMetaprotoUnregister (registry : Registry) (protocol pluginId : CString) : Registry × Int :=
  if registry.routes.any (Route.isOf protocol pluginId) then
    ({ registry with routes := registry.routes.eraseP (Route.isOf protocol pluginId) }, hwrunOk)
  else (registry, hwrunEnoent)

/-- `hw_metaproto_resolve`: the first route of the protocol whose version satisfies a
non-empty request. -/
def hwMetaprotoResolve (registry : Registry) (protocol : CString) (versionReq : Option CString) :
    Option Route :=
  registry.routes.find? fun route =>
    route.protocol == protocol &&
      match versionReq with
      | none | some [] => true
      | some req => hwProtoVersionCompat route.version req

/-- Whether some route has the name of a protocol. -/
def Registry.registered (registry : Registry) (protocol : CString) : Bool :=
  registry.routes.any fun route => route.protocol == protocol

/-- `hw_metaproto_check_deps`: every required protocol is registered. A null pointer is an
invalid argument, also with count zero. -/
def hwMetaprotoCheckDeps (registry : Registry) (requires : Option (List CString)) : Int :=
  match requires with
  | none => hwrunEinval
  | some names => if names.all registry.registered then hwrunOk else hwrunEnoent

/-! ## What the operations do to the routes -/

/-- A protocol resolves without a version request exactly when it is registered. -/
theorem hwMetaprotoResolve_isSome (registry : Registry) (protocol : CString) :
    (hwMetaprotoResolve registry protocol none).isSome = registry.registered protocol := by
  rw [Bool.eq_iff_iff]
  simp [hwMetaprotoResolve, Registry.registered]

/-- The dependency check passes exactly for an array whose names are all registered. -/
theorem hwMetaprotoCheckDeps_ok {registry : Registry} {requires : Option (List CString)} :
    hwMetaprotoCheckDeps registry requires = hwrunOk ↔
      ∃ names, requires = some names ∧ ∀ name ∈ names, registry.registered name = true := by
  cases requires with
  | none => simp [hwMetaprotoCheckDeps, hwrunEinval, hwrunOk]
  | some names =>
    unfold hwMetaprotoCheckDeps
    by_cases all : names.all registry.registered = true
    · simp only [all, if_true, Option.some.injEq, exists_eq_left', true_iff]
      exact List.all_eq_true.mp all
    · simp only [all, Bool.false_eq_true, if_false, Option.some.injEq, exists_eq_left']
      constructor
      · intro equal
        exact absurd equal (by decide)
      · intro each
        exact absurd (List.all_eq_true.mpr each) all

/-- Replacing elements by ones with the same key keeps the keys. -/
private theorem map_replaceF {α β : Type} {change : α → Option α} (key : α → β)
    (same : ∀ old new, change old = some new → key new = key old) (list : List α) :
    (list.replaceF change).map key = list.map key := by
  induction list with
  | nil => simp
  | cons head tail ih =>
    rw [List.replaceF_cons]
    cases changed : change head with
    | none => simp [ih]
    | some image => simp [same head image changed]

/-- Registration never takes a protocol away. -/
theorem registered_hwMetaprotoRegister {registry : Registry} {protocol : CString}
    {version : Option CString} {pluginId : CString} {implementation : Implementation}
    {alloc : Bool} {name : CString} (known : registry.registered name = true) :
    (hwMetaprotoRegister registry protocol version pluginId implementation
      alloc).1.registered name = true := by
  unfold hwMetaprotoRegister
  split
  · exact known
  · split
    · have keys : (registry.routes.replaceF fun route =>
          if route.isOf protocol pluginId then some (route.update version implementation)
          else none).map Route.protocol = registry.routes.map Route.protocol := by
        apply map_replaceF
        intro old new changed
        split at changed
        · obtain rfl := Option.some.inj changed
          rfl
        · cases changed
      have names (routes : List Route) : (routes.any fun route => route.protocol == name) =
          (routes.map Route.protocol).any (· == name) := by
        rw [List.any_map]
        rfl
      simp only [Registry.registered, names, keys] at known ⊢
      exact known
    · split
      · simp only [Registry.registered, List.any_cons, Bool.or_eq_true] at known ⊢
        exact .inr known
      · exact known

/-- Registration fails only without a registry or without memory. -/
theorem hwMetaprotoRegister_ok {registry : Registry} {protocol : CString}
    {version : Option CString} {pluginId : CString} {implementation : Implementation}
    {alloc : Bool} (ready : registry.initialized = true) (memory : alloc = true) :
    (hwMetaprotoRegister registry protocol version pluginId implementation alloc).2 =
      hwrunOk := by
  unfold hwMetaprotoRegister
  rw [if_neg (by simp [ready])]
  split
  · rfl
  · subst memory
    rfl

/-- Registration leaves the registry initialised as it was. -/
theorem hwMetaprotoRegister_initialized {registry : Registry} {protocol : CString}
    {version : Option CString} {pluginId : CString} {implementation : Implementation}
    {alloc : Bool} :
    (hwMetaprotoRegister registry protocol version pluginId implementation
      alloc).1.initialized = registry.initialized := by
  unfold hwMetaprotoRegister
  split
  · rfl
  · split
    · rfl
    · split <;> rfl

/-- Removal adds no route. -/
theorem hwMetaprotoUnregister_sublist (registry : Registry) (protocol pluginId : CString) :
    (hwMetaprotoUnregister registry protocol pluginId).1.routes.Sublist registry.routes := by
  unfold hwMetaprotoUnregister
  split
  · exact List.eraseP_sublist
  · exact List.Sublist.refl _

end HwrunOs.Bus
