import HwrunOs.Bus.Core
import HwrunOs.Param.Notify

/-!
# Routing parameters to `configure`

After every boot chain `hw_bus_config_route` registers a watcher for all keys, whose callback
calls `configure` of the plugin that the first part of the key names. Each boot adds one more, and
a snapshot has room for 64 watchers, so a parameter is passed on once exactly when one router is
among the first 64 watchers that match. Watchers and `configure` are taken not to call back into
the bus.
-/

namespace HwrunOs.Bus

open HwrunOs.Bytes HwrunOs.Runs HwrunOs.Param

/-! ## The router -/

/-- A watcher callback. -/
inductive WatchCallback where
  /-- `config_route_cb`, with the bus. -/
  | configRoute
  /-- A function of a plugin, with its user data. -/
  | plugin (address : Addr) (userdata : Option Addr)
  deriving DecidableEq

/-- A call of `configure`. -/
structure ConfigureCall where
  /-- The plugin. -/
  id : CString
  /-- The key. -/
  key : CString
  /-- The value. -/
  value : CString
  deriving DecidableEq

/-- The first part of a key. -/
def firstPart (key : CString) : CString := key.takeWhile (· != dot)

/-- A running plugin that can be configured. -/
def Configurable (plugin : Plugin) : Prop :=
  plugin.state = .started ∧ plugin.ops.configure.isSome

instance (plugin : Plugin) : Decidable (Configurable plugin) :=
  inferInstanceAs (Decidable (_ ∧ _))

/-- `config_route_cb`: the call it makes. -/
def configRouteCb (plugins : PluginTable) (key value : CString) : List ConfigureCall :=
  let id := firstPart key
  if id.length = 0 ∨ 64 ≤ id.length then []
  else match plugins.find id with
    | none => []
    | some plugin => if Configurable plugin then [⟨plugin.id, key, value⟩] else []

/-- The calls of `configure` that calls of watchers lead to. -/
def configureCalls (plugins : PluginTable) (deliveries : List (Delivery WatchCallback)) :
    List ConfigureCall :=
  deliveries.flatMap fun delivery =>
    match delivery.callback with
    | .configRoute => configRouteCb plugins delivery.key delivery.newValue
    | .plugin _ _ => []

/-! ## Runs -/

/-- The bus with its parameters, and the calls of `configure` made so far. -/
structure ConfigBus where
  /-- Plugins and protocols. -/
  bus : HwBus
  /-- Parameters and watchers. -/
  params : ParamContext WatchCallback
  /-- Calls of `configure`, oldest first. -/
  configured : List ConfigureCall

/-- `hw_bus_config_route`. -/
def hwBusConfigRoute (alloc : Bool) (state : ConfigBus) : ConfigBus × Int :=
  if state.bus.initialized then
    let (params, rc) :=
      hwParamWatch state.params (some (lit "bus")) (some []) (some .configRoute) alloc
    ({ state with params := params }, rc)
  else (state, hwrunEinval)

/-- `hw_plugin_load_so` on a listed plugin. -/
def busLoadSo (dl : Dl) (bus : HwBus) (id : CString) : HwBus :=
  match bus.plugins.find id with
  | none => bus
  | some plugin =>
    { bus with plugins := bus.plugins.modify id fun _ => (hwPluginLoadSo dl plugin).1 }

/-- An operation of a run. -/
inductive ConfigAction where
  /-- `hw_bus_load`, `hw_bus_stop` or `hw_bus_unload`. -/
  | plugin (action : PluginAction)
  /-- `hw_bus_scan`. -/
  | scan (found : List Discovery)
  /-- `hw_plugin_load_so`. -/
  | loadSo (id : CString) (dl : Dl)
  /-- `hw_bus_boot_chain`, with the memory for the watcher of the router. -/
  | bootChain (found : List Discovery) (env : Env) (alloc : Bool)
  /-- `hw_param_watch` by a plugin, with a function or a null pointer. -/
  | watch (pluginId pattern : Option CString) (function : Option (Addr × Option Addr))
      (alloc : Bool)
  /-- `hw_param_set_value`. -/
  | setValue (call : SetCall)

variable (fnmatch : CString → CString → Bool)

/-- The calls of `configure` that a call of `hw_param_set_value` makes. -/
def setConfigured (state : ConfigBus) (call : SetCall) : List ConfigureCall :=
  configureCalls state.bus.plugins (hwParamSetValue fnmatch state.params call).2.2

/-- The state after an operation. -/
def configStep (state : ConfigBus) : ConfigAction → ConfigBus
  | .plugin action => { state with bus := pluginStep state.bus action }
  | .scan found => { state with bus := hwBusScan found state.bus }
  | .loadSo id dl => { state with bus := busLoadSo dl state.bus id }
  | .bootChain found env alloc =>
    let (bus, rc) := hwBusBootChain env found state.bus
    if rc = hwrunOk then (hwBusConfigRoute alloc { state with bus := bus }).1
    else { state with bus := bus }
  | .watch pluginId pattern function alloc =>
    { state with
      params := (hwParamWatch state.params pluginId pattern
        (function.map fun pair => .plugin pair.1 pair.2) alloc).1 }
  | .setValue call =>
    { state with
      params := (hwParamSetValue fnmatch state.params call).1
      configured := state.configured ++ setConfigured fnmatch state call }

/-- The state after `hw_bus_init`. -/
def configInit : ConfigBus := ⟨hwBusInit, hwParamInit, []⟩

/-- Calls of `configure` pass a parameter on: once to the plugin that the first part of the key
names, if it is running and can be configured, and to no other plugin. -/
structure PassedOn (plugins : PluginTable) (key value : CString) (calls : List ConfigureCall) :
    Prop where
  /-- The plugin is called once. -/
  once : ∀ plugin ∈ plugins.nodes, plugin.id = firstPart key → Configurable plugin →
    calls.count ⟨plugin.id, key, value⟩ = 1
  /-- There is no other call. -/
  only : ∀ call ∈ calls, ∃ plugin ∈ plugins.nodes, plugin.id = firstPart key ∧
    Configurable plugin ∧ call = ⟨plugin.id, key, value⟩

instance (plugins : PluginTable) (key value : CString) (calls : List ConfigureCall) :
    Decidable (PassedOn plugins key value calls) :=
  decidable_of_iff
    ((∀ plugin ∈ plugins.nodes, plugin.id = firstPart key → Configurable plugin →
        calls.count ⟨plugin.id, key, value⟩ = 1) ∧
      ∀ call ∈ calls, ∃ plugin ∈ plugins.nodes, plugin.id = firstPart key ∧
        Configurable plugin ∧ call = ⟨plugin.id, key, value⟩)
    ⟨fun both => ⟨both.1, both.2⟩, fun passed => ⟨passed.once, passed.only⟩⟩

/-- Every successful set of a parameter passes it on. -/
def SetPassedOn (state : ConfigBus) : ConfigAction → Prop
  | .setValue call => ∀ key ∈ call.key, ∀ value ∈ call.value,
    (hwParamSetValue fnmatch state.params call).2.1 = Param.hwrunOk →
    PassedOn state.bus.plugins key value (setConfigured fnmatch state call)
  | _ => True

instance (state : ConfigBus) :
    ∀ action, Decidable (SetPassedOn fnmatch state action)
  | .setValue _ => inferInstanceAs (Decidable (∀ _ ∈ _, ∀ _ ∈ _, _ → _))
  | .plugin _ | .scan _ | .loadSo _ _ | .bootChain _ _ _ | .watch _ _ _ _ =>
    inferInstanceAs (Decidable True)

/-- The routers among the watchers that a set of a key calls. -/
def routersInView (state : ConfigBus) (key : CString) : Nat :=
  (snapshot fnmatch key state.params.watchers).count .configRoute

/-- At every successful set of a key whose plugin is running and can be configured, one router is
in view. -/
def OneRouter (state : ConfigBus) : ConfigAction → Prop
  | .setValue call => ∀ key ∈ call.key,
    (hwParamSetValue fnmatch state.params call).2.1 = Param.hwrunOk →
    (∃ plugin ∈ state.bus.plugins.nodes, plugin.id = firstPart key ∧ Configurable plugin) →
    routersInView fnmatch state key = 1
  | _ => True

/-! ## One set -/

/-- Every plugin has an id that fits the buffer of the router. -/
def Named (plugins : PluginTable) : Prop :=
  ∀ node ∈ plugins.nodes, 0 < node.id.length ∧ node.id.length < 64

/-- The router calls the plugin that the first part of the key names. -/
theorem configRouteCb_named {plugins : PluginTable} (named : Named plugins) {plugin : Plugin}
    (listed : plugin ∈ plugins.nodes) {key : CString} (first : plugin.id = firstPart key)
    (value : CString) : configRouteCb plugins key value =
      if Configurable plugin then [⟨plugin.id, key, value⟩] else [] := by
  obtain ⟨filled, short⟩ := named plugin listed
  have found := PluginTable.find_of_mem listed
  unfold configRouteCb
  rw [← first]
  have room : ¬ (plugin.id.length = 0 ∨ 64 ≤ plugin.id.length) := by omega
  simp only [if_neg room, found]

/-- Every call of the router is to a running plugin that the first part of the key names. -/
theorem mem_configRouteCb {plugins : PluginTable} {key value : CString} {call : ConfigureCall}
    (called : call ∈ configRouteCb plugins key value) :
    ∃ plugin ∈ plugins.nodes, plugin.id = firstPart key ∧ Configurable plugin ∧
      call = ⟨plugin.id, key, value⟩ := by
  unfold configRouteCb at called
  simp only at called
  split at called
  · cases called
  · split at called
    · cases called
    · rename_i plugin found
      obtain ⟨listed, first⟩ := PluginTable.find_some found
      split at called
      · rename_i running
        exact ⟨plugin, listed, first, running, List.mem_singleton.mp called⟩
      · cases called

/-- The callbacks of a snapshot lead to the calls of the router, once for each router. -/
theorem configureCalls_snapshot (plugins : PluginTable) (callbacks : List WatchCallback)
    (key : CString) (oldValue : Option CString) (value : CString) :
    configureCalls plugins (callbacks.map fun callback => ⟨callback, key, oldValue, value⟩) =
      (List.replicate (callbacks.count .configRoute)
        (configRouteCb plugins key value)).flatten := by
  induction callbacks with
  | nil => rfl
  | cons callback rest ih =>
    unfold configureCalls at ih ⊢
    rw [List.map_cons, List.flatMap_cons, ih]
    cases callback with
    | configRoute =>
      rw [List.count_cons_self, List.replicate_succ, List.flatten_cons]
    | plugin address userdata =>
      have other : WatchCallback.plugin address userdata ≠ .configRoute :=
        fun same => by cases same
      rw [List.count_cons_of_ne other, List.nil_append]

/-- The calls of `configure` of a successful set: those of every router in view. -/
theorem setConfigured_eq {state : ConfigBus} {call : SetCall} {key value : CString}
    (keyed : call.key = some key) (valued : call.value = some value)
    (success : (hwParamSetValue fnmatch state.params call).2.1 = Param.hwrunOk) :
    setConfigured fnmatch state call =
      (List.replicate (routersInView fnmatch state key)
        (configRouteCb state.bus.plugins key value)).flatten := by
  have deliveries : (hwParamSetValue fnmatch state.params call).2.2 =
      (snapshot fnmatch key state.params.watchers).map fun callback =>
        ⟨callback, key, hwParamGet state.params.root key, value⟩ := by
    unfold hwParamSetValue at success ⊢
    simp only [keyed, valued] at success ⊢
    rw [if_pos success]
    rfl
  rw [setConfigured, deliveries, configureCalls_snapshot]
  rfl

/-- A successful set passes the parameter on exactly when one router is in view, or no plugin is
to be told. -/
theorem passedOn_iff {state : ConfigBus} (named : Named state.bus.plugins) {call : SetCall}
    {key value : CString} (keyed : call.key = some key) (valued : call.value = some value)
    (success : (hwParamSetValue fnmatch state.params call).2.1 = Param.hwrunOk) :
    PassedOn state.bus.plugins key value (setConfigured fnmatch state call) ↔
      ((∃ plugin ∈ state.bus.plugins.nodes, plugin.id = firstPart key ∧ Configurable plugin) →
        routersInView fnmatch state key = 1) := by
  rw [setConfigured_eq fnmatch keyed valued success]
  generalize routersInView fnmatch state key = routers
  constructor
  · rintro ⟨once, -⟩ ⟨plugin, listed, first, running⟩
    have calls := once plugin listed first running
    rw [configRouteCb_named named listed first, if_pos running] at calls
    simpa using calls
  · intro single
    constructor
    · intro plugin listed first running
      rw [single ⟨plugin, listed, first, running⟩, configRouteCb_named named listed first,
        if_pos running]
      simp
    · intro made called
      obtain ⟨calls, among, inside⟩ := List.mem_flatten.mp called
      rw [List.eq_of_mem_replicate among] at inside
      exact mem_configRouteCb inside

/-! ## What keeps its name -/

/-- Writing a node keeps all ids. -/
theorem Named.modify {plugins : PluginTable} (named : Named plugins) (id : CString)
    (change : Plugin → Plugin) : Named (plugins.modify id change) := by
  intro node listed
  obtain ⟨old, member, rfl⟩ := PluginTable.mem_modify.mp listed
  have kept := named old member
  split
  · exact kept
  · exact kept

/-- A scan lists only plugins with an id. -/
theorem Named.scan {bus : HwBus} (named : Named bus.plugins) (found : List Discovery) :
    Named (hwBusScan found bus).plugins := by
  have one (table : PluginTable) (before : Named table) (discovery : Discovery) :
      Named (scanDirRec table discovery) := by
    unfold scanDirRec
    split
    · exact before
    · split
      · rename_i filled _
        intro node listed
        rcases List.mem_cons.mp listed with rfl | old
        · rw [scannedPlugin, snprintf_eq discovery.idFits]
          exact ⟨List.length_pos_iff.mpr filled, discovery.idFits⟩
        · exact before node old
      · exact before
  unfold hwBusScan
  split
  · show Named (found.foldl scanDirRec bus.plugins)
    exact @run_invariant _ _ scanDirRec Named (fun table discovery before =>
      one table before discovery) _ named found
  · exact named

/-- A start keeps all ids. -/
theorem Named.start {bus : HwBus} (named : Named bus.plugins) (env : Env) (plugin : Plugin) :
    Named (hwPluginStart env bus plugin).1.plugins := by
  rw [hwPluginStart_plugins]
  exact named.modify _ _

/-- A turn of the boot loop keeps all ids. -/
theorem Named.turn {bus : HwBus} (named : Named bus.plugins) (env : Env) (id : CString) :
    Named (bootTurn env bus id).plugins := by
  unfold bootTurn
  split
  · exact named
  · split
    · exact named
    · exact named.start env _

/-- An operation on one plugin keeps all ids. -/
theorem Named.plugin {bus : HwBus} (named : Named bus.plugins) (action : PluginAction) :
    Named (pluginStep bus action).plugins := by
  have stop (plugin : Plugin) : Named (hwPluginStop bus plugin).plugins := by
    rw [hwPluginStop_plugins]
    exact named.modify _ _
  cases action with
  | load id env =>
    show Named (hwBusLoad env bus id).1.plugins
    rw [← bootTurn_eq]
    exact named.turn env id
  | stop id =>
    show Named (hwBusStop bus id).1.plugins
    unfold hwBusStop
    split
    · exact named
    · exact stop _
  | unload id =>
    show Named (hwBusUnload bus id).1.plugins
    unfold hwBusUnload
    split
    · exact named
    · rename_i plugin _
      show Named (PluginTable.modify _ _ _)
      apply Named.modify
      have halted : Named (if plugin.state = .started ∨ plugin.state = .loaded then
          hwPluginStop bus plugin else bus).plugins := by
        split
        · exact stop plugin
        · exact named
      split
      · exact halted
      · exact halted

/-- Every operation keeps all ids. -/
theorem named_configStep {state : ConfigBus} (named : Named state.bus.plugins)
    (action : ConfigAction) : Named (configStep fnmatch state action).bus.plugins := by
  cases action with
  | plugin action => exact named.plugin action
  | scan found => exact named.scan found
  | loadSo id dl =>
    show Named (busLoadSo dl state.bus id).plugins
    unfold busLoadSo
    split
    · exact named
    · exact named.modify _ _
  | bootChain found env alloc =>
    have booted : Named (hwBusBootChain env found state.bus).1.plugins := by
      unfold hwBusBootChain
      split
      · exact @run_invariant _ _ (bootTurn env) (fun bus => Named bus.plugins)
          (fun _ id before => before.turn env id) _ (named.scan found) bootOrder
      · exact named
    simp only [configStep]
    split
    · unfold hwBusConfigRoute
      split
      · exact booted
      · exact booted
    · exact booted
  | watch pluginId pattern function alloc => exact named
  | setValue call => exact named

/-! ## The whole run -/

/-- A plugin that requires LOG and whose shared object is a.so. -/
def tunedDiscovery : Discovery where
  id := lit "hap"
  idFits := hap_fits
  provides := []
  requires := [lit "LOG"]
  conflicts := []
  files := [lit "/a.so"]
  plugDir := lit "/"

/-- A dynamic linker whose shared object has a `configure` callback. -/
def tunedDl : Dl where
  dlopen := fun _ => some 1
  dlsym := fun _ => true
  entry := fun _ => some { scannedPlugin tunedDiscovery with ops := { configure := some 2 } }
  time := 0

/-- Two boot chains, and a parameter of the plugin is set. -/
def bootedTwice : List ConfigAction :=
  [.scan [tunedDiscovery], .loadSo (lit "hap") tunedDl, .bootChain [] willingEnv true,
    .bootChain [] willingEnv true, .setValue ⟨some (lit "hap.mode"), some (lit "1"), fun _ => true⟩]

end HwrunOs.Bus
