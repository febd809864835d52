import HwrunOs.Bus.Core

/-!
# One pass over the boot order

`hw_bus_boot_chain` gives every id of the fixed order one turn. A plugin whose requires array
is not a null pointer is started in its turn unless a required protocol is missing at that
moment or a conflicting one is registered; a provider that comes later in the order does not
bring it back.
-/

namespace HwrunOs.Bus

open HwrunOs.Bytes

/-- Every plugin of the boot order is started, lacks a required protocol or has a conflict. -/
def BootSettled (bus : HwBus) : Prop :=
  ∀ id ∈ bootOrder, ∀ plugin ∈ bus.plugins.find id, plugin.state = .started ∨
    (∃ protocol ∈ entries plugin.requires, bus.metaproto.registered protocol = false) ∨
    ∃ protocol ∈ entries plugin.conflicts, bus.metaproto.registered protocol = true

instance (bus : HwBus) : Decidable (BootSettled bus) :=
  inferInstanceAs (Decidable (∀ id ∈ bootOrder, ∀ plugin ∈ bus.plugins.find id, _))

/-- Every callback a plugin has succeeds, and so does every registration. -/
structure Env.Succeeds (env : Env) : Prop where
  /-- `init` succeeds. -/
  init : ∀ id, env.initRc id = hwrunOk
  /-- `start` succeeds. -/
  start : ∀ id, env.startRc id = hwrunOk
  /-- Routes can be allocated. -/
  memory : ∀ id index, env.alloc id index = true

/-- The state of the bus when the turn of an id comes: the ids in front had theirs. -/
def beforeTurn (env : Env) (found : List Discovery) (front : List CString) (bus : HwBus) : HwBus :=
  front.foldl (bootTurn env) (hwBusScan found bus)

/-! ## One turn -/

/-- A turn writes only the node of its id. -/
theorem find_bootTurn_ne (env : Env) (bus : HwBus) {id other : CString} (different : other ≠ id) :
    (bootTurn env bus id).plugins.find other = bus.plugins.find other := by
  unfold bootTurn
  cases search : bus.plugins.find id with
  | none => rfl
  | some plugin =>
    obtain ⟨-, rfl⟩ := PluginTable.find_some search
    dsimp only
    split
    · rfl
    · rw [hwPluginStart_plugins]
      exact PluginTable.find_modify_ne different

/-- Later turns of other ids leave a node as it is. -/
theorem find_bootTurns_ne (env : Env) {other : CString} {ids : List CString}
    (different : other ∉ ids) (bus : HwBus) :
    (ids.foldl (bootTurn env) bus).plugins.find other = bus.plugins.find other := by
  induction ids generalizing bus with
  | nil => rfl
  | cons id rest ih =>
    rw [List.mem_cons, not_or] at different
    rw [List.foldl_cons, ih different.2, find_bootTurn_ne env bus different.1]

/-- The registry after a turn is the one before it, or the one that the registration of a
plugin's protocols leaves. -/
theorem bootTurn_metaproto {env : Env} (succeeds : env.Succeeds) {bus : HwBus}
    (ready : bus.metaproto.initialized = true) (id : CString) :
    (bootTurn env bus id).metaproto = bus.metaproto ∨ ∃ plugin,
      (bootTurn env bus id).metaproto =
        (pluginRegisterProvides (env.alloc plugin.id) bus.metaproto plugin).1 := by
  unfold bootTurn
  cases bus.plugins.find id with
  | none => exact .inl rfl
  | some plugin =>
    dsimp only
    split
    · exact .inl rfl
    · by_cases passed : Startable bus.metaproto plugin
      · have started := hwPluginStart_succeeds passed (fun _ => succeeds.init plugin.id)
          (fun _ => succeeds.start plugin.id) (succeeds.memory plugin.id) ready
        exact .inr ⟨plugin, started.2⟩
      · rw [(hwPluginStart_refused env passed).1]
        exact .inl rfl

/-- A turn keeps the registry initialised and every protocol registered. -/
theorem bootTurn_registered {env : Env} (succeeds : env.Succeeds) {bus : HwBus}
    (ready : bus.metaproto.initialized = true) (id : CString) :
    (bootTurn env bus id).metaproto.initialized = true ∧
      ∀ protocol, bus.metaproto.registered protocol = true →
        (bootTurn env bus id).metaproto.registered protocol = true := by
  rcases bootTurn_metaproto succeeds ready id with same | ⟨plugin, registered⟩
  · rw [same]
    exact ⟨ready, fun _ known => known⟩
  · rw [registered]
    exact ⟨(registerProvidesFrom_initialized 0 _).trans ready,
      fun _ known => registered_registerProvidesFrom 0 _ known⟩

/-- Any number of turns keep the registry initialised and every protocol registered. -/
theorem bootTurns_registered {env : Env} (succeeds : env.Succeeds) (ids : List CString)
    {bus : HwBus} (ready : bus.metaproto.initialized = true) :
    (ids.foldl (bootTurn env) bus).metaproto.initialized = true ∧
      ∀ protocol, bus.metaproto.registered protocol = true →
        (ids.foldl (bootTurn env) bus).metaproto.registered protocol = true := by
  induction ids generalizing bus with
  | nil => exact ⟨ready, fun _ known => known⟩
  | cons id rest ih =>
    obtain ⟨kept, known⟩ := bootTurn_registered succeeds ready id
    obtain ⟨still, later⟩ := ih kept
    exact ⟨still, fun protocol registered => later protocol (known protocol registered)⟩

/-- A plugin after its own turn: it is started, or its checks failed. -/
theorem find_bootTurn_self {env : Env} (succeeds : env.Succeeds) {bus : HwBus}
    (ready : bus.metaproto.initialized = true) {id : CString} {plugin : Plugin}
    (found : (bootTurn env bus id).plugins.find id = some plugin) :
    plugin.state = .started ∨ ¬ Startable bus.metaproto plugin := by
  unfold bootTurn at found
  cases search : bus.plugins.find id with
  | none => simp [search] at found
  | some old =>
    obtain ⟨-, rfl⟩ := PluginTable.find_some search
    simp only [search] at found
    split at found
    · rename_i running
      rw [search] at found
      obtain rfl := Option.some.inj found
      exact .inl running
    · by_cases passed : Startable bus.metaproto old
      · have started := (hwPluginStart_succeeds passed (fun _ => succeeds.init old.id)
          (fun _ => succeeds.start old.id) (succeeds.memory old.id) ready).1
        rw [hwPluginStart_plugins, if_pos started, HwBus.setState,
          PluginTable.find_modify_self search] at found
        obtain rfl := Option.some.inj found
        exact .inl rfl
      · rw [(hwPluginStart_refused env passed).1, HwBus.setState,
          PluginTable.find_modify_self search] at found
        obtain rfl := Option.some.inj found
        exact .inr passed

/-- A plugin with a requires array fails the checks for a missing protocol or a conflict. -/
theorem not_startable {registry : Registry} {plugin : Plugin}
    (declared : plugin.requires.isSome) (refused : ¬ Startable registry plugin) :
    (∃ protocol ∈ entries plugin.requires, registry.registered protocol = false) ∨
      ∃ protocol ∈ entries plugin.conflicts, registry.registered protocol = true := by
  obtain ⟨names, array⟩ := Option.isSome_iff_exists.mp declared
  by_contra neither
  simp only [not_or, not_exists, not_and, Bool.not_eq_false, Bool.not_eq_true] at neither
  refine refused ⟨?_, neither.2⟩
  rw [hwMetaprotoCheckDeps_ok]
  refine ⟨names, array, ?_⟩
  intro name listed
  exact neither.1 name (by rwa [array])

/-! ## The whole pass -/

/-- Every id has one turn. -/
theorem bootOrder_nodup : bootOrder.Nodup := by decide +kernel

/-- When all callbacks and registrations succeed, a plugin of the boot order whose requires
array is not a null pointer is started after the pass, or one of its required protocols was not
registered when its turn came, or one of its conflicting protocols is registered. -/
theorem bootChain_settled {env : Env} (succeeds : env.Succeeds) (found : List Discovery)
    {bus : HwBus} (running : bus.initialized = true)
    (ready : bus.metaproto.initialized = true) {front back : List CString} {id : CString}
    (turn : bootOrder = front ++ id :: back) :
    ∀ plugin ∈ (hwBusBootChain env found bus).1.plugins.find id, plugin.requires.isSome →
      plugin.state = .started ∨
      (∃ protocol ∈ entries plugin.requires,
        (beforeTurn env found front bus).metaproto.registered protocol = false) ∨
      ∃ protocol ∈ entries plugin.conflicts,
        (hwBusBootChain env found bus).1.metaproto.registered protocol = true := by
  intro plugin listed declared
  have once : id ∉ back := by
    have unique := bootOrder_nodup
    rw [turn] at unique
    exact (List.nodup_cons.mp (List.nodup_append.mp unique).2.1).1
  have pass : (hwBusBootChain env found bus).1 =
      (id :: back).foldl (bootTurn env) (beforeTurn env found front bus) := by
    rw [hwBusBootChain, if_pos running, turn, List.foldl_append]
    rfl
  have scanned : (hwBusScan found bus).metaproto.initialized = true := by
    rw [hwBusScan_metaproto, ready]
  have reached := (bootTurns_registered succeeds front scanned).1
  rw [pass, List.foldl_cons, find_bootTurns_ne env once] at listed
  rcases find_bootTurn_self succeeds reached listed with started | refused
  · exact .inl started
  · rcases not_startable declared refused with missing | ⟨protocol, member, conflict⟩
    · exact .inr (.inl missing)
    · refine .inr (.inr ⟨protocol, member, ?_⟩)
      rw [pass]
      exact (bootTurns_registered succeeds (id :: back) reached).2 protocol conflict

/-- A discovered plugin that requires a protocol and provides another. -/
def linkDiscovery (id requires provides : CString) (idFits : id.length < 64) : Discovery where
  id := id
  idFits := idFits
  provides := [provides]
  requires := [requires]
  conflicts := []
  files := []
  plugDir := lit "/usr/lib/hwrun/plugins"

/-- A consumer whose provider has a later turn. -/
def lateProvider : List Discovery :=
  [linkDiscovery (lit "hap") (lit "FSP") (lit "HAP") hap_fits,
    linkDiscovery (lit "fsp") (lit "LOG") (lit "FSP") fsp_fits]

/-- The pass over that consumer, whose turn is the sixth. -/
theorem bootChain_settled_late :
    ∃ plugin, (hwBusBootChain willingEnv lateProvider hwBusInit).1.plugins.find (lit "hap") =
        some plugin ∧ plugin.requires.isSome ∧
      (plugin.state = .started ∨
        (∃ protocol ∈ entries plugin.requires,
          (beforeTurn willingEnv lateProvider (bootOrder.take 5) hwBusInit).metaproto.registered
            protocol = false) ∨
        ∃ protocol ∈ entries plugin.conflicts,
          (hwBusBootChain willingEnv lateProvider hwBusInit).1.metaproto.registered protocol =
            true) := by
  have sixth : bootOrder = bootOrder.take 5 ++ lit "hap" :: bootOrder.drop 6 := by
    decide +kernel
  have declares : ((hwBusBootChain willingEnv lateProvider hwBusInit).1.plugins.find
      (lit "hap")).any (fun plugin => plugin.requires.isSome) = true := by
    decide +kernel
  obtain ⟨plugin, listed, declared⟩ := Option.any_eq_true _ _ |>.mp declares
  exact ⟨plugin, listed, declared, bootChain_settled ⟨fun _ => rfl, fun _ => rfl, fun _ _ => rfl⟩
    lateProvider rfl (by decide) sixth plugin listed declared⟩

/-- The consumer stays down although its requirement is met at the end. -/
theorem late_provider_unsettled :
    ¬ BootSettled (hwBusBootChain willingEnv lateProvider hwBusInit).1 := by
  decide +kernel

end HwrunOs.Bus
