import HwrunOs.Bus.Core

/-!
# Started plugins and their shared objects

No operation of the bus calls `hw_plugin_load_so`. A scanned plugin therefore keeps its null
handle and its empty callbacks when it is started, and its routes carry the descriptor. The
relation between started and loaded plugins holds along a run exactly as long as the checks of
`hw_plugin_start` refuse every plugin.
-/

namespace HwrunOs.Bus

open HwrunOs.Bytes HwrunOs.Runs

/-- Handle and callbacks of a plugin are those a successful `hw_plugin_load_so` left. -/
def LoadedBySo (plugin : Plugin) : Prop :=
  ∃ dl old, old.handle = none ∧ (hwPluginLoadSo dl old).2 = hwrunOk ∧
    plugin.handle = (hwPluginLoadSo dl old).1.handle ∧
    plugin.ops = (hwPluginLoadSo dl old).1.ops

/-- A route carries the pointer the plugin's own `get_interface` returned for its protocol. -/
def CarriesInterface (plugin : Plugin) (route : Route) : Prop :=
  ∃ protocol address, route.protocol = snprintf 64 protocol ∧
    plugin.ops.getInterface.bind (· protocol) = some address ∧
    route.implementation = .interface address

/-- A started plugin was loaded, and every route under a plugin's id, the built-in ones of the
bus apart, carries that plugin's interface. -/
def StartedOnlyIfLoaded (bus : HwBus) : Prop :=
  ∀ plugin ∈ bus.plugins.nodes, (plugin.state = .started → LoadedBySo plugin) ∧
    ∀ route ∈ bus.metaproto.routes, route.pluginId = plugin.id →
      route ∈ hwBusInit.metaproto.routes ∨ CarriesInterface plugin route

/-- A turn on an id starts nothing: the plugin is absent or started already, or the checks of
`hw_plugin_start` refuse it. -/
def TurnRefused (bus : HwBus) (id : CString) : Prop :=
  match bus.plugins.find id with
  | none => True
  | some plugin => plugin.state = .started ∨ ¬ Startable bus.metaproto plugin

instance (bus : HwBus) (id : CString) : Decidable (TurnRefused bus id) :=
  match search : bus.plugins.find id with
  | none => isTrue (by simp [TurnRefused, search])
  | some plugin =>
    decidable_of_iff (plugin.state = .started ∨ ¬ Startable bus.metaproto plugin)
      (by simp [TurnRefused, search])

/-- An operation gets no plugin past the checks of `hw_plugin_start`. -/
def StartsNothing (bus : HwBus) : BusAction → Prop
  | .plugin (.load id _) => TurnRefused bus id
  | .plugin _ => True
  | .scan _ => True
  | .bootChain found _ => ∀ id ∈ bootOrder, TurnRefused (hwBusScan found bus) id

instance : (bus : HwBus) → (action : BusAction) → Decidable (StartsNothing bus action)
  | bus, .plugin (.load id _) => inferInstanceAs (Decidable (TurnRefused bus id))
  | _, .plugin (.stop _) => inferInstanceAs (Decidable True)
  | _, .plugin (.unload _) => inferInstanceAs (Decidable True)
  | _, .scan _ => inferInstanceAs (Decidable True)
  | bus, .bootChain found _ =>
    inferInstanceAs (Decidable (∀ id ∈ bootOrder, TurnRefused (hwBusScan found bus) id))

/-- No allocation fails during an operation. -/
def MemorySuffices : BusAction → Prop
  | .plugin (.load _ env) => ∀ id index, env.alloc id index = true
  | .bootChain _ env => ∀ id index, env.alloc id index = true
  | _ => True

/-- Nothing was started: no node is started or loaded, and only built-in routes exist. -/
structure NothingStarted (bus : HwBus) : Prop where
  /-- Every node is as scanned, but for a state that is not started. -/
  idle : ∀ plugin ∈ bus.plugins.nodes,
    plugin.state ≠ .started ∧ plugin.handle = none ∧ plugin.ops = {}
  /-- Every route is one `hw_bus_init` made. -/
  builtin : ∀ route ∈ bus.metaproto.routes, route ∈ hwBusInit.metaproto.routes
  /-- The registry accepts registrations. -/
  ready : bus.metaproto.initialized = true
  /-- The bus is initialised. -/
  running : bus.initialized = true

/-- A plugin with a null handle was not loaded. -/
theorem not_loadedBySo {plugin : Plugin} (unloaded : plugin.handle = none) :
    ¬ LoadedBySo plugin := by
  rintro ⟨dl, old, fresh, loaded, handle, -⟩
  obtain ⟨opened, -, -, set, -⟩ := hwPluginLoadSo_ok fresh loaded
  rw [unloaded, set] at handle
  cases handle

/-- Where nothing was started, nothing was started without being loaded. -/
theorem NothingStarted.sound {bus : HwBus} (nothing : NothingStarted bus) :
    StartedOnlyIfLoaded bus := by
  intro plugin listed
  refine ⟨fun started => absurd started (nothing.idle plugin listed).1, ?_⟩
  intro route registered _
  exact .inl (nothing.builtin route registered)

/-- Initially nothing was started. -/
theorem nothingStarted_init : NothingStarted hwBusInit where
  idle := by
    intro plugin listed
    cases listed
  builtin := fun _ registered => registered
  ready := by decide
  running := rfl

/-- Writing a state that is not started keeps it that nothing was started. -/
theorem NothingStarted.setState {bus : HwBus} (nothing : NothingStarted bus) (id : CString)
    {state : PluginState} (other : state ≠ .started) : NothingStarted (bus.setState id state) where
  idle := by
    intro plugin listed
    obtain ⟨old, member, rfl⟩ := PluginTable.mem_modify.mp listed
    obtain ⟨kept, unloaded, bare⟩ := nothing.idle old member
    by_cases named : old.id = id
    · rw [if_pos named]
      exact ⟨other, unloaded, bare⟩
    · rw [if_neg named]
      exact ⟨kept, unloaded, bare⟩
  builtin := nothing.builtin
  ready := nothing.ready
  running := nothing.running

/-- The scan adds plugins that are not started. -/
theorem NothingStarted.scan {bus : HwBus} (nothing : NothingStarted bus)
    (found : List Discovery) : NothingStarted (hwBusScan found bus) where
  idle := by
    intro plugin listed
    rw [hwBusScan, if_pos nothing.running] at listed
    rcases mem_scan listed with old | ⟨discovery, -, rfl⟩
    · exact nothing.idle plugin old
    · exact ⟨by simp [scannedPlugin], rfl, rfl⟩
  builtin := by
    rw [hwBusScan_metaproto]
    exact nothing.builtin
  ready := by rw [hwBusScan_metaproto, nothing.ready]
  running := by rw [hwBusScan_initialized, nothing.running]

/-- A turn that is refused keeps it that nothing was started, and keeps the registry. -/
theorem NothingStarted.turn {bus : HwBus} (nothing : NothingStarted bus) (env : Env)
    {id : CString} (refused : TurnRefused bus id) :
    NothingStarted (bootTurn env bus id) ∧
      (bootTurn env bus id = bus ∨ bootTurn env bus id = bus.setState id .error) := by
  unfold bootTurn
  unfold TurnRefused at refused
  cases search : bus.plugins.find id with
  | none => exact ⟨nothing, .inl rfl⟩
  | some plugin =>
    obtain ⟨listed, rfl⟩ := PluginTable.find_some search
    simp only [search] at refused
    have idle := (nothing.idle plugin listed).1
    have stopped := (hwPluginStart_refused env (refused.resolve_left idle)).1
    simp only [if_neg idle, stopped]
    exact ⟨nothing.setState plugin.id (by decide), .inr trivial⟩

/-- Removing routes keeps it that nothing was started. -/
theorem unregister_builtin (registry : Registry) (plugin : Plugin) (count : Nat) :
    (∀ route ∈ (pluginUnregisterProvides registry plugin count).routes,
      route ∈ registry.routes) ∧
    (pluginUnregisterProvides registry plugin count).initialized = registry.initialized := by
  unfold pluginUnregisterProvides
  generalize (entries plugin.provides).take count = protocols
  induction protocols generalizing registry with
  | nil => exact ⟨fun _ kept => kept, rfl⟩
  | cons protocol rest ih =>
    obtain ⟨routes, ready⟩ := ih (hwMetaprotoUnregister registry protocol plugin.id).1
    refine ⟨?_, ?_⟩
    · intro route kept
      exact (hwMetaprotoUnregister_sublist registry protocol plugin.id).mem (routes route kept)
    · rw [List.foldl_cons, ready]
      unfold hwMetaprotoUnregister
      split <;> rfl

/-- Stopping a plugin keeps it that nothing was started. -/
theorem NothingStarted.stop {bus : HwBus} (nothing : NothingStarted bus) (plugin : Plugin) :
    NothingStarted (hwPluginStop bus plugin) := by
  unfold hwPluginStop
  refine NothingStarted.setState ?_ plugin.id (by decide)
  have logged : NothingStarted (if plugin.ops.stop.isSome then bus.log (.stop plugin.id)
      else bus) := by
    split
    · exact ⟨nothing.idle, nothing.builtin, nothing.ready, nothing.running⟩
    · exact nothing
  obtain ⟨routes, ready⟩ := unregister_builtin (if plugin.ops.stop.isSome then
    bus.log (.stop plugin.id) else bus).metaproto plugin (entries plugin.provides).length
  exact ⟨logged.idle, fun route kept => logged.builtin route (routes route kept),
    ready.trans logged.ready, logged.running⟩

/-- Unloading a plugin keeps it that nothing was started. -/
theorem NothingStarted.unload {bus : HwBus} (nothing : NothingStarted bus) (plugin : Plugin) :
    NothingStarted (hwPluginUnload bus plugin) := by
  have stopped : NothingStarted (if plugin.state = .started ∨ plugin.state = .loaded then
      hwPluginStop bus plugin else bus) := by
    split
    · exact nothing.stop plugin
    · exact nothing
  unfold hwPluginUnload
  dsimp only
  generalize (if plugin.state = .started ∨ plugin.state = .loaded then
    hwPluginStop bus plugin else bus) = middle at stopped
  have logged : NothingStarted (if plugin.ops.destroy.isSome then
      middle.log (.destroy plugin.id) else middle) := by
    split
    · exact ⟨stopped.idle, stopped.builtin, stopped.ready, stopped.running⟩
    · exact stopped
  generalize (if plugin.ops.destroy.isSome then middle.log (.destroy plugin.id)
    else middle) = last at logged
  refine ⟨?_, logged.builtin, logged.ready, logged.running⟩
  intro node listed
  obtain ⟨old, member, rfl⟩ := PluginTable.mem_modify.mp listed
  obtain ⟨idle, unloaded, bare⟩ := logged.idle old member
  by_cases named : old.id = plugin.id
  · rw [if_pos named]
    exact ⟨by simp, rfl, bare⟩
  · rw [if_neg named]
    exact ⟨idle, unloaded, bare⟩

/-- A pass of turns that are all refused keeps it that nothing was started. -/
theorem NothingStarted.turns {env : Env} (ids : List CString) {bus : HwBus}
    (nothing : NothingStarted bus) (refused : ∀ id ∈ ids, TurnRefused bus id) :
    NothingStarted (ids.foldl (bootTurn env) bus) := by
  induction ids generalizing bus with
  | nil => exact nothing
  | cons id rest ih =>
    obtain ⟨kept, same⟩ := nothing.turn env (refused id List.mem_cons_self)
    refine ih kept ?_
    intro other listed
    have before := refused other (List.mem_cons_of_mem _ listed)
    rcases same with same | same
    · rw [same]
      exact before
    · rw [same]
      unfold TurnRefused at before ⊢
      by_cases named : other = id
      · subst named
        cases search : bus.plugins.find other with
        | none =>
          have absent : (bus.setState other .error).plugins.find other = none :=
            PluginTable.find_modify_none search
          simp only [absent]
        | some plugin =>
          have written : (bus.setState other .error).plugins.find other =
              some { plugin with id := other, state := .error } :=
            PluginTable.find_modify_self search
          simp only [search] at before
          simp only [written]
          obtain ⟨member, -⟩ := PluginTable.find_some search
          exact .inr (before.resolve_left (nothing.idle plugin member).1)
      · simp only [HwBus.setState, PluginTable.find_modify_ne named]
        exact before

/-- Every operation that starts nothing keeps it that nothing was started. -/
theorem NothingStarted.step {bus : HwBus} {action : BusAction} (nothing : NothingStarted bus)
    (refused : StartsNothing bus action) : NothingStarted (busStep bus action) := by
  cases action with
  | plugin action =>
    cases action with
    | load id env =>
      have turn := (nothing.turn env refused).1
      rw [bootTurn_eq] at turn
      exact turn
    | stop id =>
      simp only [busStep, pluginStep, hwBusStop]
      split
      · exact nothing
      · exact nothing.stop _
    | unload id =>
      simp only [busStep, pluginStep, hwBusUnload]
      split
      · exact nothing
      · exact nothing.unload _
  | scan found => exact nothing.scan found
  | bootChain found env =>
    simp only [busStep, hwBusBootChain, if_pos nothing.running]
    exact (nothing.scan found).turns _ refused

/-! ## A start that is not refused -/

/-- Some started plugin has a null handle. -/
def StartedUnloaded (bus : HwBus) : Prop :=
  ∃ plugin ∈ bus.plugins.nodes, plugin.state = .started ∧ plugin.handle = none

/-- A started plugin with a null handle was started without being loaded. -/
theorem StartedUnloaded.broken {bus : HwBus} (unloaded : StartedUnloaded bus) :
    ¬ StartedOnlyIfLoaded bus := by
  obtain ⟨plugin, listed, started, handle⟩ := unloaded
  exact fun good => not_loadedBySo handle ((good plugin listed).1 started)

/-- Where nothing was started, a turn that is not refused starts a plugin with a null
handle. -/
theorem NothingStarted.turn_started {bus : HwBus} (nothing : NothingStarted bus) {env : Env}
    {id : CString} (memory : ∀ id index, env.alloc id index = true)
    (accepted : ¬ TurnRefused bus id) : StartedUnloaded (bootTurn env bus id) := by
  unfold TurnRefused at accepted
  cases search : bus.plugins.find id with
  | none => simp [search] at accepted
  | some plugin =>
    simp only [search, not_or, not_not] at accepted
    obtain ⟨listed, rfl⟩ := PluginTable.find_some search
    obtain ⟨-, unloaded, bare⟩ := nothing.idle plugin listed
    have success : (hwPluginStart env bus plugin).2 = hwrunOk :=
      (hwPluginStart_succeeds accepted.2 (by simp [bare]) (by simp [bare]) (memory plugin.id)
        nothing.ready).1
    have table := hwPluginStart_plugins env bus plugin
    rw [if_pos success] at table
    refine ⟨{ plugin with state := .started }, ?_, rfl, unloaded⟩
    simp only [bootTurn, search, if_neg accepted.1, table, HwBus.setState]
    exact PluginTable.mem_modify.mpr ⟨plugin, listed, by simp⟩

/-- A turn leaves a started plugin started. -/
theorem StartedUnloaded.turn {bus : HwBus} (unloaded : StartedUnloaded bus) (env : Env)
    (id : CString) : StartedUnloaded (bootTurn env bus id) := by
  obtain ⟨plugin, listed, started, handle⟩ := unloaded
  unfold bootTurn
  cases search : bus.plugins.find id with
  | none => exact ⟨plugin, listed, started, handle⟩
  | some other =>
    by_cases running : other.state = .started
    · simp only [if_pos running]
      exact ⟨plugin, listed, started, handle⟩
    · simp only [if_neg running]
      obtain ⟨member, -⟩ := PluginTable.find_some search
      have different : plugin.id ≠ other.id := by
        intro same
        rw [PluginTable.eq_of_id listed member same] at started
        exact running started
      refine ⟨plugin, ?_, started, handle⟩
      rw [hwPluginStart_plugins]
      exact PluginTable.mem_modify.mpr ⟨plugin, listed, by rw [if_neg different]⟩

/-- A pass with a turn that is not refused starts a plugin with a null handle. -/
theorem NothingStarted.turns_started {env : Env}
    (memory : ∀ id index, env.alloc id index = true) (ids : List CString) {bus : HwBus}
    (nothing : NothingStarted bus) (accepted : ∃ id ∈ ids, ¬ TurnRefused bus id) :
    StartedUnloaded (ids.foldl (bootTurn env) bus) := by
  have later : ∀ (ids : List CString) (bus : HwBus), StartedUnloaded bus →
      StartedUnloaded (ids.foldl (bootTurn env) bus) := by
    intro ids
    induction ids with
    | nil => exact fun _ unloaded => unloaded
    | cons id rest ih => exact fun bus unloaded => ih _ (unloaded.turn env id)
  -- The first accepted turn starts its plugin; the refused turns before it change no check.
  induction ids generalizing bus with
  | nil =>
    obtain ⟨id, listed, -⟩ := accepted
    cases listed
  | cons id rest ih =>
    by_cases first : TurnRefused bus id
    · obtain ⟨kept, same⟩ := nothing.turn env first
      refine ih kept ?_
      obtain ⟨other, listed, open_⟩ := accepted
      rcases List.mem_cons.mp listed with rfl | listed
      · exact absurd first open_
      · refine ⟨other, listed, ?_⟩
        rcases same with same | same
        · rw [same]
          exact open_
        · have different : other ≠ id := by
            rintro rfl
            exact open_ first
          rw [same]
          unfold TurnRefused at open_ ⊢
          simp only [HwBus.setState, PluginTable.find_modify_ne different]
          exact open_
    · exact later rest _ (nothing.turn_started memory first)

/-- Where nothing was started, an operation that is not refused starts a plugin with a null
handle. -/
theorem NothingStarted.step_started {bus : HwBus} {action : BusAction}
    (nothing : NothingStarted bus) (memory : MemorySuffices action)
    (accepted : ¬ StartsNothing bus action) : StartedUnloaded (busStep bus action) := by
  cases action with
  | plugin action =>
    cases action with
    | load id env =>
      have turn := nothing.turn_started memory accepted
      rw [bootTurn_eq] at turn
      exact turn
    | stop id => exact absurd trivial accepted
    | unload id => exact absurd trivial accepted
  | scan found => exact absurd trivial accepted
  | bootChain found env =>
    simp only [busStep, hwBusBootChain, if_pos nothing.running]
    refine (nothing.scan found).turns_started memory _ ?_
    simpa only [StartsNothing, not_forall, exists_prop] using accepted

/-! ## Runs of the bus -/

/-- Along every run of the bus a started plugin was loaded from its shared object and every
route carries its plugin's interface, provided no operation gets a plugin past the checks of
`hw_plugin_start`; and when no allocation fails, only then. -/
theorem started_loaded_iff (actions : List BusAction) :
    (AllSteps busStep StartsNothing hwBusInit actions →
      AllStates busStep StartedOnlyIfLoaded hwBusInit actions) ∧
    (AllSteps busStep (fun _ action => MemorySuffices action) hwBusInit actions →
      (AllStates busStep StartedOnlyIfLoaded hwBusInit actions ↔
        AllSteps busStep StartsNothing hwBusInit actions)) := by
  constructor
  · intro refused
    exact (allStates_of_steps (fun _ _ nothing refused => nothing.step refused)
      nothingStarted_init refused).mono fun _ nothing => nothing.sound
  · intro memory
    exact allStates_iff_allSteps (fun _ nothing => nothing.sound)
      (fun _ _ nothing refused => nothing.step refused)
      (fun _ _ nothing memory accepted => (nothing.step_started memory accepted).broken)
      nothingStarted_init memory

/-- A discovered plugin that requires LOG and provides HAP. -/
def hapDiscovery : Discovery where
  id := lit "hap"
  idFits := hap_fits
  provides := [lit "HAP"]
  requires := [lit "LOG"]
  conflicts := []
  files := [lit "hap.so"]
  plugDir := lit "/usr/lib/hwrun/plugins/hap"

/-- A discovered plugin that requires a protocol nobody provides. -/
def strandedDiscovery : Discovery :=
  { hapDiscovery with id := lit "fsp", idFits := fsp_fits, requires := [lit "PMP"] }

/-- A run in which the checks refuse every plugin. -/
theorem started_loaded_stranded : AllStates busStep StartedOnlyIfLoaded hwBusInit
    [.scan [strandedDiscovery], .plugin (.load (lit "fsp") willingEnv),
      .bootChain [strandedDiscovery] willingEnv, .plugin (.unload (lit "fsp"))] :=
  (started_loaded_iff _).1 (by decide +kernel)

/-- Booting one discovered plugin starts it with a null handle, and its route carries the
plugin descriptor. -/
theorem boot_starts_unloaded :
    ¬ AllStates busStep StartedOnlyIfLoaded hwBusInit [.bootChain [hapDiscovery] willingEnv] ∧
      (run busStep hwBusInit [.bootChain [hapDiscovery] willingEnv]).metaproto.routes.any
        (fun route => route.pluginId == lit "hap" &&
          route.implementation == .descriptor (lit "hap")) = true := by
  refine ⟨fun holds => ?_, by decide +kernel⟩
  have unloaded :
      StartedUnloaded (run busStep hwBusInit [.bootChain [hapDiscovery] willingEnv]) := by
    unfold StartedUnloaded
    decide +kernel
  exact unloaded.broken holds.last

end HwrunOs.Bus
