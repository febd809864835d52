import HwrunOs.Bus.Core

/-!
# Injection of the runtime

`hw_plugin_inject_runtime` builds the runtime object on its stack and passes its address to the
`runtime_bind` of the plugin, which keeps the pointer. A trace records what happens to runtime
objects and which callbacks run, so that lifetimes can be spoken about. `hw_plugin_load_so` takes
over the callbacks of the descriptor that the entry point returned and leaves its `runtime_bind`
behind, so that a plugin with an `init` callback is never bound.
-/

namespace HwrunOs.Bus

open HwrunOs.Bytes HwrunOs.Runs

/-! ## The runtime object -/

/-- The forwarding functions of `runtime.c`. -/
inductive Forwarder where
  | rtLog
  | rtParamGet
  | rtParamGetInt
  | rtParamGetBool
  | rtParamSet
  | rtParamWatch
  deriving DecidableEq

/-- The callbacks of `hw_git_ops_t` that are passed on. -/
structure HwGitOps where
  /-- `add`. -/
  add : Option Addr
  /-- `commit`. -/
  commit : Option Addr
  /-- `status`. -/
  status : Option Addr

/-- `hw_runtime_t`. -/
structure HwRuntime where
  /-- `log`. -/
  log : Option Forwarder
  /-- `param_get`. -/
  paramGet : Option Forwarder
  /-- `param_get_int`. -/
  paramGetInt : Option Forwarder
  /-- `param_get_bool`. -/
  paramGetBool : Option Forwarder
  /-- `param_set`. -/
  paramSet : Option Forwarder
  /-- `param_watch`. -/
  paramWatch : Option Forwarder
  /-- `git_add`. -/
  gitAdd : Option Addr
  /-- `git_commit`. -/
  gitCommit : Option Addr
  /-- `git_status`. -/
  gitStatus : Option Addr
  /-- `git`, the implementation itself. -/
  git : Option Implementation

/-- `hw_runtime_fill`: the callbacks for LOG and PARAM. -/
def hwRuntimeFill : HwRuntime where
  log := some .rtLog
  paramGet := some .rtParamGet
  paramGetInt := some .rtParamGetInt
  paramGetBool := some .rtParamGetBool
  paramSet := some .rtParamSet
  paramWatch := some .rtParamWatch
  gitAdd := none
  gitCommit := none
  gitStatus := none
  git := none

/-- The runtime `hw_plugin_inject_runtime` builds: filled, and with the GIT callbacks read from
the implementation of the GIT route. -/
def injectedRuntime (gitOps : Implementation → HwGitOps) (registry : Registry) : HwRuntime :=
  match hwMetaprotoResolve registry (lit "GIT") none with
  | none => hwRuntimeFill
  | some route =>
    if route.implementation = .null then hwRuntimeFill
    else { hwRuntimeFill with
      gitAdd := (gitOps route.implementation).add
      gitCommit := (gitOps route.implementation).commit
      gitStatus := (gitOps route.implementation).status
      git := some route.implementation }

/-- The LOG and PARAM callbacks of a runtime are set. -/
def HwRuntime.Filled (runtime : HwRuntime) : Prop :=
  runtime.log.isSome ∧ runtime.paramGet.isSome ∧ runtime.paramGetInt.isSome ∧
    runtime.paramGetBool.isSome ∧ runtime.paramSet.isSome ∧ runtime.paramWatch.isSome

/-- The GIT implementation of a runtime is set, and its callbacks are that implementation's. -/
def HwRuntime.HasGit (gitOps : Implementation → HwGitOps) (runtime : HwRuntime) : Prop :=
  ∃ git, runtime.git = some git ∧ runtime.gitAdd = (gitOps git).add ∧
    runtime.gitCommit = (gitOps git).commit ∧ runtime.gitStatus = (gitOps git).status

/-- Some GIT implementation is registered. -/
def GitRegistered (registry : Registry) : Prop :=
  ∃ route ∈ registry.routes, route.protocol = lit "GIT" ∧ route.implementation ≠ .null

/-! ## Traces -/

/-- What happens to plugins and runtime objects, in order. -/
inductive Event where
  /-- `hw_plugin_load_so` succeeded; the descriptor its entry point returned. -/
  | loaded (id : CString) (self : Plugin)
  /-- `hw_plugin_inject_runtime` is entered, and its runtime object begins to live. -/
  | born (object : Nat)
  /-- `runtime_bind` gets the address of a runtime object and keeps it. -/
  | bound (id : CString) (function : Addr) (object : Nat) (runtime : HwRuntime)
      (gitOps : Implementation → HwGitOps) (registry : Registry)
  /-- `hw_plugin_inject_runtime` returns, and its runtime object is dead. -/
  | gone (object : Nat)
  /-- A callback of a plugin is called. -/
  | called (call : Call)
  /-- A plugin was unloaded. -/
  | unloaded (id : CString)

/-- The plugin whose callback a call runs. -/
def Call.owner : Call → CString
  | .bind id _ => id
  | .init id _ => id
  | .start id _ => id
  | .stop id => id
  | .destroy id => id

/-- The descriptor the last successful load of a plugin returned. -/
def lastLoaded (trace : List Event) (id : CString) : Option Plugin :=
  trace.reverse.findSome? fun event =>
    match event with
    | .loaded other self => if other = id then some self else none
    | _ => none

/-- A plugin was bound: the `runtime_bind` of its own entry descriptor got a filled runtime,
with a GIT implementation if one was registered. -/
def WasBound (trace : List Event) (id : CString) : Prop :=
  ∃ self function object runtime gitOps registry,
    lastLoaded trace id = some self ∧ self.runtimeBind = some function ∧
    .bound id function object runtime gitOps registry ∈ trace ∧ runtime.Filled ∧
    (GitRegistered registry → runtime.HasGit gitOps)

/-- Whenever `init` is called, the plugin was bound before. -/
def BoundBeforeInit (trace : List Event) : Prop :=
  ∀ front id rc back, trace = front ++ .called (.init id rc) :: back → WasBound front id

/-- Whenever a callback of a plugin runs, the runtime object that it keeps is alive, until the
plugin is unloaded or bound again. -/
def KeptAlive (trace : List Event) : Prop :=
  ∀ front id function object runtime gitOps registry middle call back,
    trace = front ++ .bound id function object runtime gitOps registry :: middle ++
      .called call :: back →
    call.owner = id → .unloaded id ∉ middle →
    (∀ function object runtime gitOps registry,
      .bound id function object runtime gitOps registry ∉ middle) →
    .gone object ∉ middle

/-! ## The bus with a trace -/

/-- The bus with the trace of its run and the number of runtime objects so far. -/
structure TracedBus where
  /-- The bus. -/
  bus : HwBus
  /-- Runtime objects so far. -/
  objects : Nat
  /-- Events, oldest first. -/
  trace : List Event

/-- The events of `hw_plugin_inject_runtime`: the object lives until the function returns. -/
def injectEvents (gitOps : Implementation → HwGitOps) (object : Nat) (bus : HwBus)
    (plugin : Plugin) : List Event :=
  if plugin.handle.isNone then []
  else
    let bound := match plugin.runtimeBind with
      | some function => [.bound plugin.id function object
          (injectedRuntime gitOps bus.metaproto) gitOps bus.metaproto]
      | none => []
    .born object :: bound ++ [.gone object]

/-- The calls an operation appended to the log. -/
def newCalls (before after : HwBus) : List Call := after.calls.drop before.calls.length

/-- The events of `hw_plugin_start`: nothing when the checks refuse the plugin, else those of the
injection and the calls after it. -/
def startEvents (env : Env) (gitOps : Implementation → HwGitOps) (object : Nat) (bus : HwBus)
    (plugin : Plugin) : List Event :=
  if Startable bus.metaproto plugin then
    injectEvents gitOps object bus plugin ++
      (newCalls (hwPluginInjectRuntime bus plugin) (hwPluginStart env bus plugin).1).map .called
  else []

/-- A turn: start a plugin that is listed and not started, as `hw_bus_load` and the boot loop
do. -/
def tracedTurn (env : Env) (gitOps : Implementation → HwGitOps) (traced : TracedBus)
    (id : CString) : TracedBus where
  bus := bootTurn env traced.bus id
  objects := traced.objects + 1
  trace := traced.trace ++
    match traced.bus.plugins.find id with
    | none => []
    | some plugin =>
      if plugin.state = .started then []
      else startEvents env gitOps traced.objects traced.bus plugin

/-- `hw_plugin_load_so` on a listed plugin. -/
def tracedLoadSo (dl : Dl) (traced : TracedBus) (id : CString) : TracedBus :=
  match traced.bus.plugins.find id with
  | none => traced
  | some plugin =>
    let (loaded, rc) := hwPluginLoadSo dl plugin
    let events := match loaded.handle.bind dl.entry with
      | some self => if rc = hwrunOk ∧ plugin.handle = none then [.loaded id self] else []
      | none => []
    { traced with
      bus := { traced.bus with plugins := traced.bus.plugins.modify id fun _ => loaded }
      trace := traced.trace ++ events }

/-- One step of a traced run. -/
inductive TracedAction where
  /-- `hw_bus_scan`. -/
  | scan (found : List Discovery)
  /-- `hw_plugin_load_so`. -/
  | loadSo (id : CString) (dl : Dl)
  /-- `hw_bus_load`, or a turn of the boot loop. -/
  | turn (id : CString) (env : Env) (gitOps : Implementation → HwGitOps)
  /-- `hw_bus_stop`. -/
  | stop (id : CString)
  /-- `hw_bus_unload`. -/
  | unload (id : CString)

/-- The traced bus after a step. -/
def tracedStep (traced : TracedBus) : TracedAction → TracedBus
  | .scan found => { traced with bus := hwBusScan found traced.bus }
  | .loadSo id dl => tracedLoadSo dl traced id
  | .turn id env gitOps => tracedTurn env gitOps traced id
  | .stop id =>
    let after := (hwBusStop traced.bus id).1
    { traced with
      bus := after
      trace := traced.trace ++ (newCalls traced.bus after).map .called }
  | .unload id =>
    let after := (hwBusUnload traced.bus id).1
    let unloaded := if (traced.bus.plugins.find id).isSome then [.unloaded id] else []
    { traced with
      bus := after
      trace := traced.trace ++ ((newCalls traced.bus after).map .called ++ unloaded) }

/-- The bus after `hw_bus_init`, with nothing traced. -/
def tracedInit : TracedBus := ⟨hwBusInit, 0, []⟩

/-- An operation of a run. -/
inductive RuntimeAction where
  /-- `hw_bus_scan`. -/
  | scan (found : List Discovery)
  /-- `hw_plugin_load_so`. -/
  | loadSo (id : CString) (dl : Dl)
  /-- `hw_bus_load`. -/
  | load (id : CString) (env : Env) (gitOps : Implementation → HwGitOps)
  /-- `hw_bus_boot_chain`, with what its scan finds. -/
  | bootChain (found : List Discovery) (env : Env) (gitOps : Implementation → HwGitOps)
  /-- `hw_bus_stop`. -/
  | stop (id : CString)
  /-- `hw_bus_unload`. -/
  | unload (id : CString)

/-- The steps of an operation: a boot chain is a scan and a turn for every id of the boot
order. -/
def RuntimeAction.steps : RuntimeAction → List TracedAction
  | .scan found => [.scan found]
  | .loadSo id dl => [.loadSo id dl]
  | .load id env gitOps => [.turn id env gitOps]
  | .bootChain found env gitOps =>
    .scan found :: bootOrder.map fun id => .turn id env gitOps
  | .stop id => [.stop id]
  | .unload id => [.unload id]

/-- Every plugin that starts was bound, and what it keeps is alive. -/
def RuntimeInjected (traced : TracedBus) : Prop :=
  BoundBeforeInit traced.trace ∧ KeptAlive traced.trace

/-- A step gets no plugin with an `init` callback past the checks of `hw_plugin_start`. -/
def NoInit (traced : TracedBus) : TracedAction → Prop
  | .turn id _ _ => ∀ plugin, traced.bus.plugins.find id = some plugin →
    plugin.state ≠ .started → Startable traced.bus.metaproto plugin → plugin.ops.init = none
  | _ => True

/-! ## The trace and the log -/

/-- The call that an event records. -/
def Event.call : Event → Option Call
  | .bound id _ _ runtime _ _ => some (.bind id runtime.git)
  | .called call => some call
  | _ => none

/-- Only a call of `init` records one. -/
theorem Event.call_init {event : Event} {id : CString} {rc : Int} :
    event.call = some (.init id rc) ↔ event = .called (.init id rc) := by
  cases event <;> simp [Event.call]

/-- The calls that `finishStart` logs: at most `start`. -/
theorem finishStart_calls (env : Env) (bus : HwBus) (plugin : Plugin) :
    ∃ later, (finishStart env bus plugin).1.calls = bus.calls ++ later ∧
      ∀ call ∈ later, ∃ rc, call = .start plugin.id rc := by
  have started (other : HwBus) : ∃ later, (callStart env other plugin).1.calls =
      other.calls ++ later ∧ ∀ call ∈ later, ∃ rc, call = .start plugin.id rc := by
    unfold callStart
    split
    · exact ⟨[.start plugin.id (env.startRc plugin.id)], rfl, by simp⟩
    · exact ⟨[], by simp, by simp⟩
  simp only [finishStart]
  split
  · exact ⟨[], by simp, by simp⟩
  · split
    · exact started _
    · exact started _

/-- The calls that a start logs when the checks pass: after the injection, `init` and at most
`start`. -/
theorem hwPluginStart_calls {env : Env} {bus : HwBus} {plugin : Plugin}
    (passed : Startable bus.metaproto plugin) :
    ∃ later, newCalls (hwPluginInjectRuntime bus plugin) (hwPluginStart env bus plugin).1 =
        (if plugin.ops.init.isSome then [.init plugin.id (env.initRc plugin.id)] else []) ++
          later ∧
      (hwPluginStart env bus plugin).1.calls = (hwPluginInjectRuntime bus plugin).calls ++
        newCalls (hwPluginInjectRuntime bus plugin) (hwPluginStart env bus plugin).1 ∧
      ∀ call ∈ later, ∃ rc, call = .start plugin.id rc := by
  have logged : (callInit env (hwPluginInjectRuntime bus plugin) plugin).1.calls =
      (hwPluginInjectRuntime bus plugin).calls ++
        if plugin.ops.init.isSome then [.init plugin.id (env.initRc plugin.id)] else [] := by
    unfold callInit
    split
    · rfl
    · exact (List.append_nil _).symm
  have whole : ∃ later, (hwPluginStart env bus plugin).1.calls =
      (hwPluginInjectRuntime bus plugin).calls ++
        ((if plugin.ops.init.isSome then [.init plugin.id (env.initRc plugin.id)] else []) ++
          later) ∧ ∀ call ∈ later, ∃ rc, call = .start plugin.id rc := by
    rw [hwPluginStart_passed passed]
    split
    · exact ⟨[], by rw [setState_calls, logged, List.append_nil], by simp⟩
    · obtain ⟨later, calls, starts⟩ :=
        finishStart_calls env (callInit env (hwPluginInjectRuntime bus plugin) plugin).1 plugin
      exact ⟨later, by rw [calls, logged, List.append_assoc], starts⟩
  obtain ⟨later, calls, starts⟩ := whole
  have added : newCalls (hwPluginInjectRuntime bus plugin) (hwPluginStart env bus plugin).1 =
      (if plugin.ops.init.isSome then [.init plugin.id (env.initRc plugin.id)] else []) ++
        later := by
    rw [newCalls, calls, List.drop_left]
  exact ⟨later, added, by rw [added, calls], starts⟩

/-- The injection logs the calls of its events. -/
theorem injectEvents_calls (gitOps : Implementation → HwGitOps) (object : Nat) (bus : HwBus)
    (plugin : Plugin) : (hwPluginInjectRuntime bus plugin).calls =
      bus.calls ++ (injectEvents gitOps object bus plugin).filterMap Event.call := by
  unfold hwPluginInjectRuntime injectEvents
  split
  · simp
  · cases bind : plugin.runtimeBind with
    | none => simp [Event.call]
    | some function =>
      simp only [Option.isSome_some, if_true, log_calls, hwBusResolve, injectedRuntime]
      cases hwMetaprotoResolve bus.metaproto (lit "GIT") none with
      | none => rfl
      | some route =>
        by_cases null : route.implementation = .null
        · simp only [if_pos null]
          rfl
        · simp only [if_neg null]
          rfl

/-- The calls among the events of a start are the calls it logs. -/
theorem startEvents_calls (env : Env) (gitOps : Implementation → HwGitOps) (object : Nat)
    (bus : HwBus) (plugin : Plugin) : (hwPluginStart env bus plugin).1.calls =
      bus.calls ++ (startEvents env gitOps object bus plugin).filterMap Event.call := by
  unfold startEvents
  by_cases passed : Startable bus.metaproto plugin
  · obtain ⟨_, -, calls, -⟩ := @hwPluginStart_calls env bus plugin passed
    have same (calls : List Call) : (calls.map Event.called).filterMap Event.call = calls := by
      rw [List.filterMap_map]
      exact List.filterMap_some
    rw [if_pos passed, List.filterMap_append, same, ← List.append_assoc,
      ← injectEvents_calls, calls]
  · rw [if_neg passed, (hwPluginStart_refused env passed).1]
    simp

/-- The turns of a boot chain act on the bus as the boot loop does. -/
theorem tracedTurns_bus (env : Env) (gitOps : Implementation → HwGitOps) (ids : List CString)
    (traced : TracedBus) :
    (run tracedStep traced (ids.map fun id => .turn id env gitOps)).bus =
      ids.foldl (bootTurn env) traced.bus := by
  induction ids generalizing traced with
  | nil => rfl
  | cons id rest ih =>
    rw [List.map_cons, run_cons, ih]
    rfl

/-- The steps of a boot chain act on an initialised bus as `hw_bus_boot_chain` does. -/
theorem tracedBoot_bus {traced : TracedBus} (running : traced.bus.initialized = true)
    (found : List Discovery) (env : Env) (gitOps : Implementation → HwGitOps) :
    (run tracedStep traced (RuntimeAction.bootChain found env gitOps).steps).bus =
      (hwBusBootChain env found traced.bus).1 := by
  rw [RuntimeAction.steps, run_cons, tracedTurns_bus, hwBusBootChain, if_pos running]
  simp only [tracedStep]

/-! ## No plugin is bound -/

/-- Nothing was bound and no `init` was called: no descriptor of the list has a
`runtime_bind`. -/
structure Unbound (traced : TracedBus) : Prop where
  /-- The listed descriptors have no `runtime_bind`. -/
  bare : ∀ plugin ∈ traced.bus.plugins.nodes, plugin.runtimeBind = none
  /-- `runtime_bind` was never called. -/
  unbound : ∀ id function object runtime gitOps registry,
    .bound id function object runtime gitOps registry ∉ traced.trace
  /-- `init` was never called. -/
  uninitialized : ∀ id rc, .called (.init id rc) ∉ traced.trace

/-- Where nothing was bound and no `init` was called, every init was preceded by a binding. -/
theorem Unbound.sound {traced : TracedBus} (unbound : Unbound traced) :
    RuntimeInjected traced := by
  constructor
  · intro front id rc back split
    have member : Event.called (.init id rc) ∈ traced.trace := by
      rw [split]
      simp
    exact absurd member (unbound.uninitialized id rc)
  · intro front id function object runtime gitOps registry middle call back split
    have member : Event.bound id function object runtime gitOps registry ∈ traced.trace := by
      rw [split]
      simp
    exact absurd member (unbound.unbound id function object runtime gitOps registry)

/-- A load leaves `runtime_bind` of the listed descriptor alone. -/
theorem hwPluginLoadSo_runtimeBind (dl : Dl) (plugin : Plugin) :
    (hwPluginLoadSo dl plugin).1.runtimeBind = plugin.runtimeBind := by
  unfold hwPluginLoadSo
  repeat' split
  all_goals rfl

/-- A descriptor without `runtime_bind` is not bound by the injection. -/
theorem injectEvents_bare {plugin : Plugin} (bare : plugin.runtimeBind = none)
    (gitOps : Implementation → HwGitOps) (object : Nat) (bus : HwBus) :
    ∀ event ∈ injectEvents gitOps object bus plugin, event = .born object ∨
      event = .gone object := by
  unfold injectEvents
  rw [bare]
  split
  · simp
  · simp

/-- The calls of a stop are calls of `stop`. -/
theorem newCalls_stop (bus : HwBus) (plugin : Plugin) :
    ∀ call ∈ newCalls bus (hwPluginStop bus plugin), call = .stop plugin.id := by
  unfold newCalls hwPluginStop
  dsimp only
  rw [setState_calls]
  split
  · simp
  · simp

/-- The calls of an unload are calls of `stop` and `destroy`. -/
theorem newCalls_unload (bus : HwBus) (plugin : Plugin) :
    ∀ call ∈ newCalls bus (hwPluginUnload bus plugin),
      call = .stop plugin.id ∨ call = .destroy plugin.id := by
  have stopped : ∃ later, (if plugin.state = .started ∨ plugin.state = .loaded then
      hwPluginStop bus plugin else bus).calls = bus.calls ++ later ∧
        ∀ call ∈ later, call = .stop plugin.id := by
    split
    · unfold hwPluginStop
      dsimp only
      rw [setState_calls]
      split
      · exact ⟨[.stop plugin.id], rfl, by simp⟩
      · exact ⟨[], by simp, by simp⟩
    · exact ⟨[], by simp, by simp⟩
  obtain ⟨later, calls, stops⟩ := stopped
  unfold newCalls hwPluginUnload
  dsimp only
  generalize (if plugin.state = .started ∨ plugin.state = .loaded then
    hwPluginStop bus plugin else bus) = middle at calls
  split
  · rw [log_calls, calls, List.append_assoc, List.drop_left]
    intro call listed
    rcases List.mem_append.mp listed with old | last
    · exact .inl (stops call old)
    · exact .inr (List.mem_singleton.mp last)
  · rw [calls, List.drop_left]
    exact fun call listed => .inl (stops call listed)

/-- An event that neither binds a plugin nor calls `init`. -/
def Event.Quiet : Event → Prop
  | .bound .. => False
  | .called (.init ..) => False
  | _ => True

/-- The calls of an operation other than a start are quiet events. -/
theorem quiet_called {calls : List Call} (other : ∀ call ∈ calls, ∀ id rc, call ≠ .init id rc) :
    ∀ event ∈ calls.map Event.called, event.Quiet := by
  intro event found
  obtain ⟨call, made, rfl⟩ := List.mem_map.mp found
  cases call with
  | init id rc => exact absurd rfl (other _ made id rc)
  | _ => trivial

/-- Every node of a table has the callbacks and the `runtime_bind` of a node before. -/
def Kept (before after : PluginTable) : Prop :=
  ∀ node ∈ after.nodes, ∃ old ∈ before.nodes, node.ops = old.ops ∧
    node.runtimeBind = old.runtimeBind

/-- A table keeps its own callbacks. -/
theorem Kept.refl (table : PluginTable) : Kept table table :=
  fun node listed => ⟨node, listed, rfl, rfl⟩

/-- Writing other fields than the callbacks keeps them. -/
theorem Kept.modify {before after : PluginTable} (kept : Kept before after) (id : CString)
    {change : Plugin → Plugin}
    (same : ∀ node, (change node).ops = node.ops ∧ (change node).runtimeBind = node.runtimeBind) :
    Kept before (after.modify id change) := by
  intro node listed
  obtain ⟨middle, member, rfl⟩ := PluginTable.mem_modify.mp listed
  obtain ⟨old, present, ops, bind⟩ := kept middle member
  refine ⟨old, present, ?_⟩
  split
  · exact ⟨(same middle).1.trans ops, (same middle).2.trans bind⟩
  · exact ⟨ops, bind⟩

/-- A turn keeps the callbacks. -/
theorem kept_turn (env : Env) (bus : HwBus) (id : CString) :
    Kept bus.plugins (bootTurn env bus id).plugins := by
  unfold bootTurn
  split
  · exact .refl bus.plugins
  · split
    · exact .refl bus.plugins
    · rw [hwPluginStart_plugins]
      exact (Kept.refl bus.plugins).modify _ fun _ => ⟨rfl, rfl⟩

/-- A stop keeps the callbacks. -/
theorem kept_stop (bus : HwBus) (plugin : Plugin) :
    Kept bus.plugins (hwPluginStop bus plugin).plugins := by
  have written : Kept bus.plugins
      (bus.plugins.modify plugin.id fun node => { node with state := .stopped }) :=
    (Kept.refl bus.plugins).modify _ fun _ => ⟨rfl, rfl⟩
  unfold hwPluginStop
  split
  · exact written
  · exact written

/-- An unload keeps the callbacks. -/
theorem kept_unload (bus : HwBus) (plugin : Plugin) :
    Kept bus.plugins (hwPluginUnload bus plugin).plugins := by
  have stopped : Kept bus.plugins (if plugin.state = .started ∨ plugin.state = .loaded then
      hwPluginStop bus plugin else bus).plugins := by
    split
    · exact kept_stop bus plugin
    · exact .refl bus.plugins
  have written := @Kept.modify _ _ stopped plugin.id
    (fun node => { node with handle := none, state := .uninstalled }) fun _ => ⟨rfl, rfl⟩
  unfold hwPluginUnload
  dsimp only
  generalize (if plugin.state = .started ∨ plugin.state = .loaded then
    hwPluginStop bus plugin else bus) = middle at written
  split
  · exact written
  · exact written

/-- The operations on one plugin keep the callbacks. -/
theorem kept_step (traced : TracedBus) {action : TracedAction}
    (scanned : ∀ found, action ≠ .scan found) (loaded : ∀ id dl, action ≠ .loadSo id dl) :
    Kept traced.bus.plugins (tracedStep traced action).bus.plugins := by
  cases action with
  | scan found => exact absurd rfl (scanned found)
  | loadSo id dl => exact absurd rfl (loaded id dl)
  | turn id env gitOps => exact kept_turn env traced.bus id
  | stop id =>
    show Kept traced.bus.plugins (hwBusStop traced.bus id).1.plugins
    unfold hwBusStop
    split
    · exact .refl traced.bus.plugins
    · exact kept_stop traced.bus _
  | unload id =>
    show Kept traced.bus.plugins (hwBusUnload traced.bus id).1.plugins
    unfold hwBusUnload
    split
    · exact .refl traced.bus.plugins
    · exact kept_unload traced.bus _

/-- The nodes after a scan are old ones or scanned ones. -/
theorem node_scan {found : List Discovery} {bus : HwBus} {node : Plugin}
    (listed : node ∈ (hwBusScan found bus).plugins.nodes) :
    node ∈ bus.plugins.nodes ∨ ∃ discovery, node = scannedPlugin discovery := by
  unfold hwBusScan at listed
  split at listed
  · rcases mem_scan listed with old | ⟨discovery, -, made⟩
    · exact .inl old
    · exact .inr ⟨discovery, made⟩
  · exact .inl listed

/-- A step leaves no `runtime_bind` in the list. -/
theorem Unbound.bare_step {traced : TracedBus} (unbound : Unbound traced)
    (action : TracedAction) :
    ∀ plugin ∈ (tracedStep traced action).bus.plugins.nodes, plugin.runtimeBind = none := by
  have others (kept : Kept traced.bus.plugins (tracedStep traced action).bus.plugins) :
      ∀ plugin ∈ (tracedStep traced action).bus.plugins.nodes, plugin.runtimeBind = none := by
    intro plugin listed
    obtain ⟨old, present, -, bind⟩ := kept plugin listed
    exact bind.trans (unbound.bare old present)
  cases action with
  | scan found =>
    intro plugin listed
    rcases node_scan listed with old | ⟨discovery, rfl⟩
    · exact unbound.bare plugin old
    · rfl
  | loadSo id dl =>
    simp only [tracedStep, tracedLoadSo]
    cases search : traced.bus.plugins.find id with
    | none => exact unbound.bare
    | some loaded =>
      obtain ⟨member, -⟩ := PluginTable.find_some search
      have bare : (hwPluginLoadSo dl loaded).1.runtimeBind = none := by
        rw [hwPluginLoadSo_runtimeBind]
        exact unbound.bare loaded member
      intro plugin listed
      obtain ⟨old, present, rfl⟩ := PluginTable.mem_modify.mp listed
      split
      · exact bare
      · exact unbound.bare old present
  | turn id env gitOps => exact others (kept_step traced (by simp) (by simp))
  | stop id => exact others (kept_step traced (by simp) (by simp))
  | unload id => exact others (kept_step traced (by simp) (by simp))

/-- The events of a start of a plugin without `runtime_bind` and `init` are quiet. -/
theorem quiet_start {plugin : Plugin} (bare : plugin.runtimeBind = none)
    {env : Env} {bus : HwBus} (absent : Startable bus.metaproto plugin → plugin.ops.init = none)
    (gitOps : Implementation → HwGitOps) (object : Nat) :
    ∀ event ∈ startEvents env gitOps object bus plugin, event.Quiet := by
  unfold startEvents
  by_cases passed : Startable bus.metaproto plugin
  · obtain ⟨later, calls, -, starts⟩ := @hwPluginStart_calls env _ _ passed
    rw [if_pos passed, calls, absent passed]
    intro event found
    rcases List.mem_append.mp found with injected | called
    · rcases injectEvents_bare bare gitOps object bus event injected with rfl | rfl
      · trivial
      · trivial
    · apply quiet_called _ event called
      intro call listed id rc same
      obtain ⟨_, started⟩ := starts call (by simpa using listed)
      rw [same] at started
      cases started
  · rw [if_neg passed]
    exact fun event listed => absurd listed List.not_mem_nil

/-- A step that gets no plugin with an `init` callback past the checks adds quiet events. -/
theorem Unbound.quiet_step {traced : TracedBus} {action : TracedAction} (unbound : Unbound traced)
    (quiet : NoInit traced action) : ∃ events,
      (tracedStep traced action).trace = traced.trace ++ events ∧
        ∀ event ∈ events, event.Quiet := by
  have nothing : ∀ event ∈ ([] : List Event), event.Quiet :=
    fun event listed => absurd listed List.not_mem_nil
  cases action with
  | scan found => exact ⟨[], (List.append_nil traced.trace).symm, nothing⟩
  | loadSo id dl =>
    simp only [tracedStep, tracedLoadSo]
    split
    · exact ⟨[], (List.append_nil traced.trace).symm, nothing⟩
    · refine ⟨_, rfl, ?_⟩
      intro event found
      split at found
      · split at found
        · rw [List.mem_singleton.mp found]
          trivial
        · cases found
      · cases found
  | turn id env gitOps =>
    refine ⟨_, rfl, ?_⟩
    cases search : traced.bus.plugins.find id with
    | none => exact nothing
    | some plugin =>
      obtain ⟨listed, -⟩ := PluginTable.find_some search
      by_cases idle : plugin.state = .started
      · simp only [if_pos idle]
        exact nothing
      · simp only [if_neg idle]
        exact quiet_start (unbound.bare plugin listed) (quiet plugin search idle) gitOps _
  | stop id =>
    refine ⟨_, rfl, quiet_called ?_⟩
    unfold hwBusStop
    split
    · simp [newCalls]
    · rename_i plugin _
      intro call made other rc same
      have stops := newCalls_stop traced.bus plugin call made
      rw [same] at stops
      cases stops
  | unload id =>
    refine ⟨_, rfl, ?_⟩
    intro event found
    rcases List.mem_append.mp found with called | last
    · apply quiet_called _ event called
      unfold hwBusUnload
      split
      · simp [newCalls]
      · rename_i plugin _
        rintro call made other rc rfl
        rcases newCalls_unload traced.bus plugin _ made with same | same
        · cases same
        · cases same
    · split at last
      · rw [List.mem_singleton.mp last]
        trivial
      · cases last

/-- A step that gets no plugin with an `init` callback past the checks keeps it that nothing was
bound. -/
theorem Unbound.step {traced : TracedBus} {action : TracedAction} (unbound : Unbound traced)
    (quiet : NoInit traced action) : Unbound (tracedStep traced action) := by
  obtain ⟨events, trace, silent⟩ := unbound.quiet_step quiet
  refine ⟨unbound.bare_step action, ?_, ?_⟩
  · intro id function object runtime gitOps registry listed
    rw [trace, List.mem_append] at listed
    rcases listed with old | new
    · exact unbound.unbound id function object runtime gitOps registry old
    · exact silent _ new
  · intro id rc listed
    rw [trace, List.mem_append] at listed
    rcases listed with old | new
    · exact unbound.uninitialized id rc old
    · exact silent _ new

/-- A step that gets a plugin with an `init` callback past the checks calls `init` on a plugin
that was not bound. -/
theorem Unbound.step_broken {traced : TracedBus} {action : TracedAction}
    (unbound : Unbound traced) (missed : ¬ NoInit traced action) :
    ¬ RuntimeInjected (tracedStep traced action) := by
  cases action with
  | turn id env gitOps =>
    simp only [NoInit, not_forall] at missed
    obtain ⟨plugin, search, idle, passed, present⟩ := missed
    obtain ⟨listed, -⟩ := PluginTable.find_some search
    have bare := unbound.bare plugin listed
    have some_ : plugin.ops.init.isSome = true := Option.isSome_iff_ne_none.mpr present
    obtain ⟨later, calls, -, -⟩ := @hwPluginStart_calls env _ _ passed
    rw [if_pos some_] at calls
    have trace : (tracedStep traced (.turn id env gitOps)).trace =
        (traced.trace ++ injectEvents gitOps traced.objects traced.bus plugin) ++
          .called (.init plugin.id (env.initRc plugin.id)) :: later.map .called := by
      simp only [tracedStep, tracedTurn, search, if_neg idle, startEvents, if_pos passed, calls]
      simp
    intro injected
    obtain ⟨_, function, object, runtime, git, registry, -, -, bound, -⟩ :=
      injected.1 _ _ _ _ trace
    rcases List.mem_append.mp bound with old | new
    · exact unbound.unbound _ _ _ _ _ _ old
    · rcases injectEvents_bare bare gitOps _ _ _ new with same | same
      · cases same
      · cases same
  | scan found => exact absurd trivial missed
  | loadSo id dl => exact absurd trivial missed
  | stop id => exact absurd trivial missed
  | unload id => exact absurd trivial missed

/-- Nothing is bound at first. -/
theorem unbound_init : Unbound tracedInit where
  bare := fun _ listed => absurd listed List.not_mem_nil
  unbound := fun _ _ _ _ _ _ listed => absurd listed List.not_mem_nil
  uninitialized := fun _ _ listed => absurd listed List.not_mem_nil

/-! ## Runs -/

/-- Along every run, `init` is only called on plugins that were bound to a runtime object that
stays alive, exactly when no start gets a plugin with an `init` callback past the checks. -/
theorem run_injected_iff (actions : List RuntimeAction) :
    AllStates tracedStep RuntimeInjected tracedInit (actions.flatMap RuntimeAction.steps) ↔
      AllSteps tracedStep NoInit tracedInit (actions.flatMap RuntimeAction.steps) :=
  allStates_iff_allSteps (fun _ unbound => unbound.sound)
    (fun _ _ unbound quiet => unbound.step quiet)
    (fun _ _ unbound _ missed => unbound.step_broken missed) unbound_init
    (allSteps_of_forall (fun _ _ => trivial) tracedInit _)

/-- A discovered plugin that requires LOG and whose shared object is a.so. -/
def storageDiscovery : Discovery where
  id := lit "fsp"
  idFits := fsp_fits
  provides := []
  requires := [lit "LOG"]
  conflicts := []
  files := [lit "/a.so"]
  plugDir := lit "/"

/-- A dynamic linker for one shared object, whose entry point returns a descriptor with `init`
and `runtime_bind`. -/
def storageDl : Dl where
  dlopen := fun _ => some 1
  dlsym := fun _ => true
  entry := fun _ => some { scannedPlugin storageDiscovery with
    ops := { init := some 2 }, runtimeBind := some 3 }
  time := 0

/-- A plugin that was scanned and loaded is initialised without being bound. -/
theorem boot_inits_unbound : ¬ AllStates tracedStep RuntimeInjected tracedInit
    ([.scan [storageDiscovery], .loadSo (lit "fsp") storageDl,
      .load (lit "fsp") willingEnv fun _ => ⟨none, none, none⟩].flatMap
        RuntimeAction.steps) := by
  intro injected
  have calls : (run tracedStep tracedInit
      ([.scan [storageDiscovery], .loadSo (lit "fsp") storageDl,
        .load (lit "fsp") willingEnv fun _ => ⟨none, none, none⟩].flatMap
          RuntimeAction.steps)).trace.map Event.call =
      [none, none, none, some (.init (lit "fsp") 0)] := by
    decide +kernel
  have bound := injected.last.1
  obtain ⟨front, last, trace, before, final⟩ :=
    List.map_eq_append_iff.mp (show _ = [none, none, none] ++ [_] from calls)
  obtain ⟨event, rfl, called⟩ := List.map_eq_singleton_iff.mp final
  rw [Event.call_init] at called
  rw [called] at trace
  obtain ⟨_, _, _, runtime, _, _, -, -, listed, -⟩ := bound _ _ _ _ trace
  have mapped := @List.mem_map_of_mem _ _ _ _ Event.call listed
  rw [before] at mapped
  simp [Event.call] at mapped

end HwrunOs.Bus
