import HwrunOs.Bus.Metaproto
import Mathlib.Data.List.Infix

/-!
# Loading, starting and stopping one plugin

`loader.c`: opening the shared object of a plugin, injecting the runtime, and the start,
stop and unload sequences with their rollback. What callbacks, allocations and the dynamic
linker answer is an input. Every call into plugin code is appended to a log, so that the
order of calls can be spoken about.
-/

namespace HwrunOs.Bus

open HwrunOs.Bytes

/-- A call into the code of a plugin. -/
inductive Call where
  /-- `runtime_bind`, with the GIT implementation of the runtime passed. -/
  | bind (id : CString) (git : Option Implementation)
  /-- `init` and its result. -/
  | init (id : CString) (rc : Int)
  /-- `start` and its result. -/
  | start (id : CString) (rc : Int)
  /-- `stop`. -/
  | stop (id : CString)
  /-- `destroy`. -/
  | destroy (id : CString)
  deriving DecidableEq

/-- The part of `hw_bus_t` that plugins and protocols live in, with the log of calls. -/
structure HwBus where
  /-- The plugin list. -/
  plugins : PluginTable
  /-- The protocol registry `meta`. -/
  metaproto : Registry
  /-- Set by `hw_bus_init`, cleared by `hw_bus_shutdown`. -/
  initialized : Bool
  /-- Calls into plugin code, oldest first. -/
  calls : List Call

/-- What the environment answers during one operation. -/
structure Env where
  /-- Result of the `init` callback of a plugin. -/
  initRc : CString → Int
  /-- Result of the `start` callback of a plugin. -/
  startRc : CString → Int
  /-- Whether the route of a plugin's provided protocol, by position, can be allocated. -/
  alloc : CString → Nat → Bool

/-- Callbacks that succeed and memory that suffices. -/
def willingEnv : Env := ⟨fun _ => hwrunOk, fun _ => hwrunOk, fun _ _ => true⟩

/-- The dynamic linker and the clock. -/
structure Dl where
  /-- `dlopen`: a handle for a path. -/
  dlopen : CString → Option Addr
  /-- `dlsym(h, "hw_plugin_entry")`: whether a handle has the entry symbol. -/
  dlsym : Addr → Bool
  /-- The descriptor the entry point of a handle returns. -/
  entry : Addr → Option Plugin
  /-- `time(NULL)`. -/
  time : Nat

/-! ## Loading -/

/-- The first file whose path contains `.so`. -/
def soPath (plugin : Plugin) : Option CString :=
  ((entries plugin.files).filterMap fun file => file).find? fun path =>
    decide (lit ".so" <:+: path)

/-- `hw_plugin_load_so`: handle, callbacks and load time come from the shared object. -/
def hwPluginLoadSo (dl : Dl) (plugin : Plugin) : Plugin × Int :=
  if plugin.handle.isSome then (plugin, hwrunOk)
  else match soPath plugin with
    | none => (plugin, hwrunEnoent)
    | some path => match dl.dlopen path with
      | none => (plugin, hwrunEnoent)
      | some handle =>
        if !dl.dlsym handle then (plugin, hwrunEilseq)
        else match dl.entry handle with
          | none => (plugin, hwrunEilseq)
          | some self =>
            ({ plugin with handle := some handle, ops := self.ops, loadTime := dl.time }, hwrunOk)

/-- A successful load of a plugin that was not loaded sets its handle and takes the callbacks
of the descriptor its entry point returned. -/
theorem hwPluginLoadSo_ok {dl : Dl} {plugin : Plugin} (fresh : plugin.handle = none)
    (loaded : (hwPluginLoadSo dl plugin).2 = hwrunOk) :
    ∃ handle self, dl.entry handle = some self ∧
      (hwPluginLoadSo dl plugin).1.handle = some handle ∧
      (hwPluginLoadSo dl plugin).1.ops = self.ops := by
  unfold hwPluginLoadSo at loaded ⊢
  rw [if_neg (by simp [fresh])] at loaded ⊢
  cases path : soPath plugin with
  | none => simp [path, hwrunEnoent, hwrunOk] at loaded
  | some file =>
    cases opened : dl.dlopen file with
    | none => simp [path, opened, hwrunEnoent, hwrunOk] at loaded
    | some handle =>
      cases symbol : dl.dlsym handle with
      | false => simp [path, opened, symbol, hwrunEilseq, hwrunOk] at loaded
      | true =>
        cases returned : dl.entry handle with
        | none => simp [path, opened, symbol, returned, hwrunEilseq, hwrunOk] at loaded
        | some self => exact ⟨handle, self, returned, by simp [opened, symbol, returned]⟩

/-! ## Single effects -/

/-- Write the state of a plugin. -/
def HwBus.setState (bus : HwBus) (id : CString) (state : PluginState) : HwBus :=
  { bus with plugins := bus.plugins.modify id fun node => { node with state := state } }

/-- Append a call to the log. -/
def HwBus.log (bus : HwBus) (call : Call) : HwBus := { bus with calls := bus.calls ++ [call] }

/-- `hw_bus_resolve`. -/
def hwBusResolve (bus : HwBus) (protocol : CString) : Option Route :=
  hwMetaprotoResolve bus.metaproto protocol none

/-- `hw_plugin_inject_runtime`: without a handle nothing is injected; the GIT callbacks come
from the first GIT route that has an implementation. -/
def hwPluginInjectRuntime (bus : HwBus) (plugin : Plugin) : HwBus :=
  if plugin.handle.isNone then bus
  else
    let git := match hwBusResolve bus (lit "GIT") with
      | some route => if route.implementation = .null then none else some route.implementation
      | none => none
    if plugin.runtimeBind.isSome then bus.log (.bind plugin.id git) else bus

/-- `p->ops.init`, when the plugin has it. -/
def callInit (env : Env) (bus : HwBus) (plugin : Plugin) : HwBus × Int :=
  if plugin.ops.init.isSome then
    (bus.log (.init plugin.id (env.initRc plugin.id)), env.initRc plugin.id)
  else (bus, hwrunOk)

/-- `p->ops.start`, when the plugin has it. -/
def callStart (env : Env) (bus : HwBus) (plugin : Plugin) : HwBus × Int :=
  if plugin.ops.start.isSome then
    (bus.log (.start plugin.id (env.startRc plugin.id)), env.startRc plugin.id)
  else (bus, hwrunOk)

/-- The pointer registered for a provided protocol: the interface the plugin returns, or the
plugin descriptor without one. -/
def providedImplementation (plugin : Plugin) (protocol : CString) : Implementation :=
  match plugin.ops.getInterface.bind (· protocol) with
  | some address => .interface address
  | none => .descriptor plugin.id

/-- The loop of `plugin_register_provides` after `done` registrations. -/
def registerProvidesFrom (alloc : Nat → Bool) (plugin : Plugin) (done : Nat) :
    List CString → Registry → Registry × Int
  | [], registry => (registry, done)
  | protocol :: rest, registry =>
    let (registry, rc) := hwMetaprotoRegister registry protocol (some hwrunProtocolVersion)
      plugin.id (providedImplementation plugin protocol) (alloc done)
    if rc ≠ hwrunOk then (registry, -(done : Int))
    else registerProvidesFrom alloc plugin (done + 1) rest registry

/-- `plugin_register_provides`: the number registered, negated when a registration failed, so
that a failing first registration returns zero. -/
def pluginRegisterProvides (alloc : Nat → Bool) (registry : Registry) (plugin : Plugin) :
    Registry × Int :=
  registerProvidesFrom alloc plugin 0 (entries plugin.provides) registry

/-- `plugin_unregister_provides`: remove the routes of the first `count` provided protocols. -/
def pluginUnregisterProvides (registry : Registry) (plugin : Plugin) (count : Nat) : Registry :=
  ((entries plugin.provides).take count).foldl
    (fun registry protocol => (hwMetaprotoUnregister registry protocol plugin.id).1) registry

/-! ## Start, stop, unload -/

/-- The part of `hw_plugin_start` after `init` succeeded. -/
def finishStart (env : Env) (bus : HwBus) (plugin : Plugin) : HwBus × Int :=
  let bus := bus.setState plugin.id .loaded
  let (metaproto, nreg) := pluginRegisterProvides (env.alloc plugin.id) bus.metaproto plugin
  if nreg < 0 then
    (({ bus with
        metaproto := pluginUnregisterProvides metaproto plugin nreg.natAbs }).setState
        plugin.id .error, hwrunEconflict)
  else
    let (bus, rc) := callStart env { bus with metaproto := metaproto } plugin
    if rc ≠ hwrunOk then
      (({ bus with
          metaproto := pluginUnregisterProvides bus.metaproto plugin
            (entries plugin.provides).length }).setState plugin.id .error, rc)
    else (bus.setState plugin.id .started, hwrunOk)

/-- `hw_plugin_start`: dependency and conflict checks, then injection, `init`, registration
and `start`, with rollback. -/
def hwPluginStart (env : Env) (bus : HwBus) (plugin : Plugin) : HwBus × Int :=
  if hwMetaprotoCheckDeps bus.metaproto plugin.requires ≠ hwrunOk then
    (bus.setState plugin.id .error, hwrunEilseq)
  else if (entries plugin.conflicts).any fun protocol =>
      (hwMetaprotoResolve bus.metaproto protocol none).isSome then
    (bus.setState plugin.id .error, hwrunEconflict)
  else
    let (bus, rc) := callInit env (hwPluginInjectRuntime bus plugin) plugin
    if rc ≠ hwrunOk then (bus.setState plugin.id .error, rc)
    else finishStart env bus plugin

/-- `hw_plugin_stop`: the `stop` callback, then every provided protocol is removed. -/
def hwPluginStop (bus : HwBus) (plugin : Plugin) : HwBus :=
  let bus := if plugin.ops.stop.isSome then bus.log (.stop plugin.id) else bus
  ({ bus with
      metaproto := pluginUnregisterProvides bus.metaproto plugin
        (entries plugin.provides).length }).setState plugin.id .stopped

/-- `hw_plugin_unload`: stop a running plugin, then `destroy` and `dlclose`. -/
def hwPluginUnload (bus : HwBus) (plugin : Plugin) : HwBus :=
  let bus := if plugin.state = .started ∨ plugin.state = .loaded then hwPluginStop bus plugin
    else bus
  let bus := if plugin.ops.destroy.isSome then bus.log (.destroy plugin.id) else bus
  { bus with
    plugins := bus.plugins.modify plugin.id fun node =>
      { node with handle := none, state := .uninstalled } }

/-! ## The gate before a start -/

/-- The checks of `hw_plugin_start` pass: the requires array is not a null pointer, all its
protocols are registered and no conflicting one is. -/
def Startable (registry : Registry) (plugin : Plugin) : Prop :=
  hwMetaprotoCheckDeps registry plugin.requires = hwrunOk ∧
    ∀ protocol ∈ entries plugin.conflicts, registry.registered protocol = false

instance (registry : Registry) (plugin : Plugin) : Decidable (Startable registry plugin) :=
  inferInstanceAs (Decidable (_ ∧ _))

/-- The conflict loop stops at a registered protocol. -/
theorem conflict_any {registry : Registry} {protocols : List CString} :
    (protocols.any fun protocol => (hwMetaprotoResolve registry protocol none).isSome) = true ↔
      ∃ protocol ∈ protocols, registry.registered protocol = true := by
  simp only [hwMetaprotoResolve_isSome, List.any_eq_true]

/-- A start that is refused by the checks only marks the plugin. -/
theorem hwPluginStart_refused (env : Env) {bus : HwBus} {plugin : Plugin}
    (refused : ¬ Startable bus.metaproto plugin) :
    (hwPluginStart env bus plugin).1 = bus.setState plugin.id .error ∧
      (hwPluginStart env bus plugin).2 ≠ hwrunOk := by
  unfold hwPluginStart
  by_cases deps : hwMetaprotoCheckDeps bus.metaproto plugin.requires = hwrunOk
  · rw [if_neg (not_not.mpr deps)]
    have conflict : ((entries plugin.conflicts).any fun protocol =>
        (hwMetaprotoResolve bus.metaproto protocol none).isSome) = true := by
      by_contra clear
      refine refused ⟨deps, ?_⟩
      intro protocol listed
      by_contra registered
      exact clear (conflict_any.mpr ⟨protocol, listed, by simpa using registered⟩)
    rw [if_pos conflict]
    exact ⟨rfl, show hwrunEconflict ≠ hwrunOk by decide⟩
  · rw [if_pos deps]
    exact ⟨rfl, show hwrunEilseq ≠ hwrunOk by decide⟩

/-- A start that passes the checks goes on with injection and `init`. -/
theorem hwPluginStart_passed {env : Env} {bus : HwBus} {plugin : Plugin}
    (passed : Startable bus.metaproto plugin) :
    hwPluginStart env bus plugin =
      if (callInit env (hwPluginInjectRuntime bus plugin) plugin).2 ≠ hwrunOk then
        ((callInit env (hwPluginInjectRuntime bus plugin) plugin).1.setState plugin.id .error,
          (callInit env (hwPluginInjectRuntime bus plugin) plugin).2)
      else finishStart env (callInit env (hwPluginInjectRuntime bus plugin) plugin).1 plugin := by
  have clear : ¬ ((entries plugin.conflicts).any fun protocol =>
      (hwMetaprotoResolve bus.metaproto protocol none).isSome) = true := by
    rw [conflict_any]
    rintro ⟨protocol, listed, registered⟩
    rw [passed.2 protocol listed] at registered
    exact absurd registered (by decide)
  rw [hwPluginStart, if_neg (not_not.mpr passed.1), if_neg clear]

/-! ## Registration of the provided protocols -/

/-- Without a failing allocation every provided protocol is registered. -/
theorem registerProvidesFrom_ok {alloc : Nat → Bool} {plugin : Plugin}
    (memory : ∀ index, alloc index = true) (done : Nat) (protocols : List CString)
    {registry : Registry} (ready : registry.initialized = true) :
    (registerProvidesFrom alloc plugin done protocols registry).2 =
      (done + protocols.length : Nat) := by
  induction protocols generalizing done registry with
  | nil => rfl
  | cons protocol rest ih =>
    have next : (hwMetaprotoRegister registry protocol (some hwrunProtocolVersion) plugin.id
        (providedImplementation plugin protocol) (alloc done)).1.initialized = true := by
      rw [hwMetaprotoRegister_initialized, ready]
    rw [registerProvidesFrom]
    simp only [hwMetaprotoRegister_ok ready (memory done), ne_eq, not_true_eq_false, if_false]
    rw [ih _ next, List.length_cons]
    congr 1
    omega

/-- Registration takes no protocol away. -/
theorem registered_registerProvidesFrom {alloc : Nat → Bool} {plugin : Plugin} (done : Nat)
    (protocols : List CString) {registry : Registry} {name : CString}
    (known : registry.registered name = true) :
    (registerProvidesFrom alloc plugin done protocols registry).1.registered name = true := by
  induction protocols generalizing done registry with
  | nil => exact known
  | cons protocol rest ih =>
    rw [registerProvidesFrom]
    dsimp only
    split
    · exact registered_hwMetaprotoRegister known
    · exact ih _ (registered_hwMetaprotoRegister known)

/-- The registry stays initialised as it was. -/
theorem registerProvidesFrom_initialized {alloc : Nat → Bool} {plugin : Plugin} (done : Nat)
    (protocols : List CString) {registry : Registry} :
    (registerProvidesFrom alloc plugin done protocols registry).1.initialized =
      registry.initialized := by
  induction protocols generalizing done registry with
  | nil => rfl
  | cons protocol rest ih =>
    rw [registerProvidesFrom]
    dsimp only
    split
    · exact hwMetaprotoRegister_initialized
    · rw [ih, hwMetaprotoRegister_initialized]

/-! ## What the operations leave alone -/

@[simp] theorem setState_metaproto (bus : HwBus) (id : CString) (state : PluginState) :
    (bus.setState id state).metaproto = bus.metaproto := rfl

@[simp] theorem setState_calls (bus : HwBus) (id : CString) (state : PluginState) :
    (bus.setState id state).calls = bus.calls := rfl

@[simp] theorem setState_initialized (bus : HwBus) (id : CString) (state : PluginState) :
    (bus.setState id state).initialized = bus.initialized := rfl

@[simp] theorem log_plugins (bus : HwBus) (call : Call) : (bus.log call).plugins = bus.plugins :=
  rfl

@[simp] theorem log_metaproto (bus : HwBus) (call : Call) :
    (bus.log call).metaproto = bus.metaproto := rfl

@[simp] theorem log_calls (bus : HwBus) (call : Call) :
    (bus.log call).calls = bus.calls ++ [call] := rfl

@[simp] theorem log_initialized (bus : HwBus) (call : Call) :
    (bus.log call).initialized = bus.initialized := rfl

@[simp] theorem inject_plugins (bus : HwBus) (plugin : Plugin) :
    (hwPluginInjectRuntime bus plugin).plugins = bus.plugins := by
  unfold hwPluginInjectRuntime
  split
  · rfl
  · dsimp only
    split <;> rfl

@[simp] theorem inject_metaproto (bus : HwBus) (plugin : Plugin) :
    (hwPluginInjectRuntime bus plugin).metaproto = bus.metaproto := by
  unfold hwPluginInjectRuntime
  split
  · rfl
  · dsimp only
    split <;> rfl

@[simp] theorem inject_initialized (bus : HwBus) (plugin : Plugin) :
    (hwPluginInjectRuntime bus plugin).initialized = bus.initialized := by
  unfold hwPluginInjectRuntime
  split
  · rfl
  · dsimp only
    split <;> rfl

@[simp] theorem callInit_plugins (env : Env) (bus : HwBus) (plugin : Plugin) :
    (callInit env bus plugin).1.plugins = bus.plugins := by
  unfold callInit
  split <;> rfl

@[simp] theorem callInit_metaproto (env : Env) (bus : HwBus) (plugin : Plugin) :
    (callInit env bus plugin).1.metaproto = bus.metaproto := by
  unfold callInit
  split <;> rfl

@[simp] theorem callInit_initialized (env : Env) (bus : HwBus) (plugin : Plugin) :
    (callInit env bus plugin).1.initialized = bus.initialized := by
  unfold callInit
  split <;> rfl

@[simp] theorem callStart_plugins (env : Env) (bus : HwBus) (plugin : Plugin) :
    (callStart env bus plugin).1.plugins = bus.plugins := by
  unfold callStart
  split <;> rfl

@[simp] theorem callStart_metaproto (env : Env) (bus : HwBus) (plugin : Plugin) :
    (callStart env bus plugin).1.metaproto = bus.metaproto := by
  unfold callStart
  split <;> rfl

@[simp] theorem callStart_initialized (env : Env) (bus : HwBus) (plugin : Plugin) :
    (callStart env bus plugin).1.initialized = bus.initialized := by
  unfold callStart
  split <;> rfl

/-- Writing a state twice writes the second. -/
theorem setState_setState (table : PluginTable) (id : CString) (first second : PluginState) :
    ((table.modify id fun node => { node with state := first }).modify id
        fun node => { node with state := second }) =
      table.modify id fun node => { node with state := second } := by
  simp only [PluginTable.modify, List.map_map, PluginTable.mk.injEq]
  apply List.map_congr_left
  intro node _
  by_cases named : node.id = id <;> simp [named]

/-- A start writes nothing in the table but the state of its plugin: started on success and
error on failure. -/
theorem hwPluginStart_plugins (env : Env) (bus : HwBus) (plugin : Plugin) :
    (hwPluginStart env bus plugin).1.plugins =
      (bus.setState plugin.id
        (if (hwPluginStart env bus plugin).2 = hwrunOk then .started else .error)).plugins := by
  by_cases passed : Startable bus.metaproto plugin
  · rw [hwPluginStart_passed passed]
    by_cases initialised : (callInit env (hwPluginInjectRuntime bus plugin) plugin).2 = hwrunOk
    · rw [if_neg (not_not.mpr initialised)]
      simp only [finishStart]
      split
      · simp only [HwBus.setState, callInit_plugins, inject_plugins, setState_setState]
        rfl
      · split
        · simp only [HwBus.setState, callStart_plugins, callInit_plugins, inject_plugins,
            setState_setState]
        · simp only [HwBus.setState, callStart_plugins, callInit_plugins, inject_plugins,
            setState_setState, if_true]
    · rw [if_pos initialised]
      simp only [HwBus.setState, callInit_plugins, inject_plugins, if_neg initialised]
  · obtain ⟨state, rc⟩ := hwPluginStart_refused env passed
    rw [state, if_neg rc]

/-- A stop writes the plugin's state. -/
theorem hwPluginStop_plugins (bus : HwBus) (plugin : Plugin) :
    (hwPluginStop bus plugin).plugins =
      bus.plugins.modify plugin.id fun node => { node with state := .stopped } := by
  unfold hwPluginStop
  split <;> rfl

/-- A start that passes the checks, with callbacks that succeed and enough memory, succeeds:
the registry after it is the one the registration loop leaves. -/
theorem hwPluginStart_succeeds {env : Env} {bus : HwBus} {plugin : Plugin}
    (passed : Startable bus.metaproto plugin)
    (init : plugin.ops.init.isSome → env.initRc plugin.id = hwrunOk)
    (start : plugin.ops.start.isSome → env.startRc plugin.id = hwrunOk)
    (memory : ∀ index, env.alloc plugin.id index = true)
    (ready : bus.metaproto.initialized = true) :
    (hwPluginStart env bus plugin).2 = hwrunOk ∧
      (hwPluginStart env bus plugin).1.metaproto =
        (pluginRegisterProvides (env.alloc plugin.id) bus.metaproto plugin).1 := by
  have initialised : (callInit env (hwPluginInjectRuntime bus plugin) plugin).2 = hwrunOk := by
    unfold callInit
    split
    · rename_i present
      exact init present
    · rfl
  have counted : ¬ (pluginRegisterProvides (env.alloc plugin.id) bus.metaproto plugin).2 < 0 := by
    rw [pluginRegisterProvides, registerProvidesFrom_ok memory 0 _ ready]
    omega
  have started (other : HwBus) : (callStart env other plugin).2 = hwrunOk := by
    unfold callStart
    split
    · rename_i present
      exact start present
    · rfl
  rw [hwPluginStart_passed passed, if_neg (not_not.mpr initialised)]
  simp only [finishStart, setState_metaproto, callInit_metaproto, inject_metaproto, if_neg counted,
    started, ne_eq, not_true_eq_false, if_false, callStart_metaproto, and_self]

/-- A start, stop or unload leaves the bus initialised as it was. -/
theorem hwPluginStart_initialized (env : Env) (bus : HwBus) (plugin : Plugin) :
    (hwPluginStart env bus plugin).1.initialized = bus.initialized := by
  by_cases passed : Startable bus.metaproto plugin
  · rw [hwPluginStart_passed passed]
    split
    · simp
    · simp only [finishStart]
      split
      · simp
      · split <;> simp
  · rw [(hwPluginStart_refused env passed).1, setState_initialized]

end HwrunOs.Bus
