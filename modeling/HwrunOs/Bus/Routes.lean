import HwrunOs.Bus.StartResult

/-!
# Routes and started plugins

The table of plugins and the registry of protocols are two records of one thing, and only the order
of the steps in `loader.c` keeps them together: routes come behind `init` and go with a stop, with
the rollback of a start, and with an unload of a plugin that runs. Where no provided name is cut, a
route that is not one of the bus itself always leads to a started plugin that provides it. The
other way round, a started plugin has a route for each of its protocols, unless there was no memory
for the first one.
-/

namespace HwrunOs.Bus

open HwrunOs.Bytes HwrunOs.Runs

/-! ## What is asked of the names -/

/-- The provided protocols of a plugin fit their fields. -/
def Plugin.ShortProvides (plugin : Plugin) : Prop :=
  ∀ protocol ∈ entries plugin.provides, protocol.length < 64

instance (plugin : Plugin) : Decidable plugin.ShortProvides :=
  inferInstanceAs (Decidable (∀ protocol ∈ entries plugin.provides, protocol.length < 64))

/-- The plugins that an operation discovers have names that fit. -/
def BusAction.ShortProvides : BusAction → Prop
  | .plugin _ => True
  | .scan found | .bootChain found _ =>
    ∀ discovery ∈ found, ∀ protocol ∈ discovery.provides, protocol.length < 64

/-- There is memory for the route of the first protocol of every plugin that is started. -/
def BusAction.FirstStored : BusAction → Prop
  | .plugin (.load _ env) | .bootChain _ env => ∀ id, env.alloc id 0 = true
  | _ => True

/-! ## What is kept -/

/-- The keys of the routes that `hw_bus_init` makes. -/
def builtinKeys : List RouteKey := builtinProtocols.map fun protocol => (protocol, lit "bus")

/-- Every route is one of the bus or leads to a started plugin that provides its protocol. -/
def RoutesLive (bus : HwBus) : Prop :=
  ∀ key ∈ bus.metaproto.keys, key ∈ builtinKeys ∨
    ∃ plugin ∈ bus.plugins.nodes, plugin.state = .started ∧ plugin.id = key.2 ∧
      key.1 ∈ entries plugin.provides

/-- Every protocol that a started plugin provides has its route. -/
def PluginsRouted (bus : HwBus) : Prop :=
  ∀ plugin ∈ bus.plugins.nodes, plugin.state = .started → ∀ protocol ∈ entries plugin.provides,
    (protocol, plugin.id) ∈ bus.metaproto.keys

/-- A bus whose routes are live, with names that fit. -/
structure Live (bus : HwBus) : Prop where
  /-- The registry accepts registrations. -/
  ready : bus.metaproto.initialized = true
  /-- The protocols of the routes fit. -/
  fits : bus.metaproto.Fits
  /-- The ids of the plugins fit. -/
  idFits : ∀ plugin ∈ bus.plugins.nodes, plugin.id.length < 64
  /-- What they provide fits. -/
  short : ∀ plugin ∈ bus.plugins.nodes, plugin.ShortProvides
  /-- No route is there twice. -/
  distinct : bus.metaproto.keys.Nodup
  /-- The routes are live. -/
  live : RoutesLive bus

/-! ## The keys of one plugin -/

/-- Removing what a plugin provides takes keys away and leaves none of these. -/
theorem mem_unregisterProvides {registry : Registry} (distinct : registry.keys.Nodup)
    (plugin : Plugin) (taken : Nat) :
    (pluginUnregisterProvides registry plugin taken).keys.Nodup ∧
      ∀ protocol, (protocol, plugin.id) ∈
          (pluginUnregisterProvides registry plugin taken).keys ↔
        (protocol, plugin.id) ∈ registry.keys ∧
          protocol ∉ (entries plugin.provides).take taken := by
  unfold pluginUnregisterProvides
  induction (entries plugin.provides).take taken generalizing registry with
  | nil => exact ⟨distinct, by simp⟩
  | cons head rest ih =>
    have less : (hwMetaprotoUnregister registry head plugin.id).1.keys.Nodup := by
      rw [unregister_keys]
      exact distinct.erase _
    obtain ⟨still, left⟩ := ih less
    refine ⟨still, fun protocol => ?_⟩
    rw [List.foldl_cons, left, unregister_keys, distinct.mem_erase_iff, List.mem_cons]
    simp only [ne_eq, Prod.mk.injEq, and_true, not_or]
    tauto

/-- Registering names that fit adds keys of these names only. -/
theorem mem_registerProvides {alloc : Nat → Bool} {plugin : Plugin}
    (idFits : plugin.id.length < 64) (done : Nat) {protocols : List CString}
    (short : ∀ protocol ∈ protocols, protocol.length < 64) {registry : Registry}
    (ready : registry.initialized = true) (fits : registry.Fits)
    (distinct : registry.keys.Nodup) :
    (registerProvidesFrom alloc plugin done protocols registry).1.keys.Nodup ∧
      ∀ protocol, (protocol, plugin.id) ∈
          (registerProvidesFrom alloc plugin done protocols registry).1.keys →
        (protocol, plugin.id) ∈ registry.keys ∨
          protocol ∈ protocols.take
            ((registerProvidesFrom alloc plugin done protocols registry).2.natAbs - done) := by
  induction protocols generalizing done registry with
  | nil => exact ⟨distinct, fun protocol listed => .inl listed⟩
  | cons head rest ih =>
    have later (name : CString) (listed : name ∈ rest) := short name (List.mem_cons_of_mem _ listed)
    have goesOn (after : Registry) :
        (head :: rest).take ((registerProvidesFrom alloc plugin (done + 1) rest after).2.natAbs -
            done) =
          head :: rest.take
            ((registerProvidesFrom alloc plugin (done + 1) rest after).2.natAbs - (done + 1)) := by
      have late := registerProvides_late alloc plugin (done + 1) rest after
      generalize (registerProvidesFrom alloc plugin (done + 1) rest after).2.natAbs = count at late
      rw [show count - done = (count - (done + 1)) + 1 by omega, List.take_succ_cons]
    cases registerProvides_turn alloc idFits done head rest ready fits with
    | known known after again afterReady afterFits same =>
      obtain ⟨still, added⟩ := ih (done + 1) later afterReady afterFits (same ▸ distinct)
      rw [again, goesOn]
      refine ⟨still, fun protocol listed => ?_⟩
      rw [← same]
      exact (added protocol listed).imp_right (List.mem_cons_of_mem _)
    | added new memory after again afterReady afterFits same =>
      have whole : snprintf 64 head = head := snprintf_eq (short head List.mem_cons_self)
      rw [whole] at same
      have unique : after.keys.Nodup := by
        rw [same]
        exact List.nodup_cons.mpr ⟨new, distinct⟩
      obtain ⟨still, added⟩ := ih (done + 1) later afterReady afterFits unique
      rw [again, goesOn]
      refine ⟨still, fun protocol listed => ?_⟩
      rcases added protocol listed with old | behind
      · rw [same] at old
        rcases List.mem_cons.mp old with first | old
        · exact .inr (List.mem_cons.mpr (.inl (congrArg Prod.fst first)))
        · exact .inl old
      · exact .inr (List.mem_cons_of_mem _ behind)
    | ended new memory ends =>
      rw [ends]
      exact ⟨distinct, fun protocol listed => .inl listed⟩

/-- A start that is undone removes whatever it registered. -/
theorem RollsBack.subset {env : Env} {bus : HwBus} {plugin : Plugin} {added removed : List CString}
    (rolls : RollsBack env bus plugin added removed) : added ⊆ removed := by
  cases rolls with
  | registration => exact List.Subset.refl _
  | start => exact List.Subset.refl _
  | bare => exact List.nil_subset _

/-! ## Operations that retire a plugin -/

/-- The nodes of a table have the ids and the provided protocols that nodes had before. -/
def SameNames (before after : PluginTable) : Prop :=
  ∀ node ∈ after.nodes, ∃ old ∈ before.nodes, node.id = old.id ∧ node.provides = old.provides

/-- Writing a node that keeps what it provides. -/
theorem sameNames_modify {table : PluginTable} {id : CString} {change : Plugin → Plugin}
    (same : ∀ node, (change node).provides = node.provides) :
    SameNames table (table.modify id change) := by
  intro node listed
  obtain ⟨old, found, rfl⟩ := PluginTable.mem_modify.mp listed
  refine ⟨old, found, ?_⟩
  split
  · exact ⟨rfl, same old⟩
  · exact ⟨rfl, rfl⟩

/-- Writing twice. -/
theorem SameNames.trans {first second third : PluginTable} (one : SameNames first second)
    (two : SameNames second third) : SameNames first third := by
  intro node listed
  obtain ⟨middle, found, id, provides⟩ := two node listed
  obtain ⟨old, before, oldId, oldProvides⟩ := one middle found
  exact ⟨old, before, id.trans oldId, provides.trans oldProvides⟩

/-- An operation after which a plugin is not started: the keys of the others are kept, and it has
none of its own any more if it was started. -/
structure Leaves (plugin : Plugin) (bus after : HwBus) : Prop where
  /-- The keys of the other plugins are kept. -/
  others : SameOthers plugin.id bus.metaproto after.metaproto
  /-- The protocols of the routes fit. -/
  fits : after.metaproto.Fits
  /-- No route is there twice. -/
  distinct : after.metaproto.keys.Nodup
  /-- No key of its own is new, and none is left of a plugin that was started. -/
  own : ∀ protocol, (protocol, plugin.id) ∈ after.metaproto.keys →
    (protocol, plugin.id) ∈ bus.metaproto.keys ∧
      (plugin.state = .started → protocol ∉ entries plugin.provides)
  /-- It is started no longer. -/
  retires : Retires plugin.id bus.plugins after.plugins
  /-- All plugins keep their names. -/
  names : SameNames bus.plugins after.plugins

section Operations

variable {bus after : HwBus} {plugin : Plugin}

/-- Names that fit go on fitting. -/
theorem SameNames.idFits (names : SameNames bus.plugins after.plugins)
    (idFits : ∀ node ∈ bus.plugins.nodes, node.id.length < 64) :
    ∀ node ∈ after.plugins.nodes, node.id.length < 64 := by
  intro node listed
  obtain ⟨old, found, id, -⟩ := names node listed
  rw [id]
  exact idFits old found

/-- Provided protocols that fit go on fitting. -/
theorem SameNames.short (names : SameNames bus.plugins after.plugins)
    (short : ∀ node ∈ bus.plugins.nodes, node.ShortProvides) :
    ∀ node ∈ after.plugins.nodes, node.ShortProvides := by
  intro node listed
  obtain ⟨old, found, -, provides⟩ := names node listed
  unfold Plugin.ShortProvides
  rw [provides]
  exact short old found

/-- The routes stay live when a plugin is retired. -/
theorem Live.leaves (alive : Live bus) (listed : plugin ∈ bus.plugins.nodes)
    (leaves : Leaves plugin bus after) : Live after where
  ready := leaves.others.1.trans alive.ready
  fits := leaves.fits
  idFits := leaves.names.idFits alive.idFits
  short := leaves.names.short alive.short
  distinct := leaves.distinct
  live := by
    rintro ⟨protocol, id⟩ routed
    by_cases own : id = plugin.id
    · subst own
      obtain ⟨before, gone⟩ := leaves.own protocol routed
      refine .inl ?_
      rcases alive.live _ before with builtin | ⟨other, present, started, named, provided⟩
      · exact builtin
      · obtain rfl := PluginTable.eq_of_id present listed named
        exact absurd provided (gone started)
    · rcases alive.live _ ((leaves.others.2 protocol id own).mp routed) with
        builtin | ⟨other, present, started, named, provided⟩
      · exact .inl builtin
      · refine .inr ⟨other, (leaves.retires other started).mpr ⟨present, ?_⟩, started, named,
          provided⟩
        rw [named]
        exact own

/-- The started plugins keep their routes when a plugin is retired. -/
theorem PluginsRouted.leaves (routed : PluginsRouted bus) (leaves : Leaves plugin bus after) :
    PluginsRouted after := by
  intro other present started protocol provided
  obtain ⟨listed, different⟩ := (leaves.retires other started).mp present
  exact (leaves.others.2 protocol other.id different).mpr
    (routed other listed started protocol provided)

/-- A stop leaves nothing of its plugin. -/
theorem Live.stop_leaves (alive : Live bus) (plugin : Plugin) :
    Leaves plugin bus (hwPluginStop bus plugin) := by
  obtain ⟨undoes, fits, retires, -⟩ := hwPluginStop_effect alive.fits alive.idFits plugin
  obtain ⟨distinct, left⟩ := mem_unregisterProvides alive.distinct plugin
    (entries plugin.provides).length
  rw [List.take_length] at left
  refine ⟨undoes.others, fits, ?_, ?_, retires, ?_⟩
  · rw [hwPluginStop_metaproto]
    exact distinct
  · intro protocol routed
    rw [hwPluginStop_metaproto] at routed
    obtain ⟨before, gone⟩ := (left protocol).mp routed
    exact ⟨before, fun _ => gone⟩
  · rw [hwPluginStop_plugins]
    exact sameNames_modify fun _ => rfl

/-- An unload leaves nothing of a plugin that was started. -/
theorem Live.unload_leaves (alive : Live bus) (plugin : Plugin) :
    Leaves plugin bus (hwPluginUnload bus plugin) := by
  obtain ⟨registry, table⟩ := hwPluginUnload_eq bus plugin
  obtain ⟨undoes, fits, retires, -⟩ := hwPluginUnload_effect alive.fits alive.idFits plugin
  have names : SameNames bus.plugins (hwPluginUnload bus plugin).plugins := by
    rw [table]
    refine SameNames.trans ?_ (sameNames_modify fun _ => rfl)
    split
    · exact (alive.stop_leaves plugin).names
    · exact fun node listed => ⟨node, listed, rfl, rfl⟩
  refine ⟨undoes.others, fits, ?_, ?_, retires, names⟩
  · rw [registry]
    split
    · exact (alive.stop_leaves plugin).distinct
    · exact alive.distinct
  · intro protocol routed
    rw [registry] at routed
    split at routed
    · exact (alive.stop_leaves plugin).own protocol routed
    · rename_i idle
      exact ⟨routed, fun started => absurd (.inl started) idle⟩

/-- A start that does not go through leaves what it found. -/
theorem Live.start_leaves (alive : Live bus) (listed : plugin ∈ bus.plugins.nodes)
    (idle : plugin.state ≠ .started) {env : Env} (fails : ¬ Succeeds env bus plugin) :
    Leaves plugin bus (hwPluginStart env bus plugin).1 := by
  have idFits := alive.idFits plugin listed
  have spec := hwPluginStart_spec env idFits alive.ready alive.fits
  have names : SameNames bus.plugins (hwPluginStart env bus plugin).1.plugins := by
    rw [hwPluginStart_plugins]
    exact sameNames_modify fun _ => rfl
  suffices kept : (hwPluginStart env bus plugin).1.metaproto.keys.Nodup ∧
      ∀ protocol, (protocol, plugin.id) ∈ (hwPluginStart env bus plugin).1.metaproto.keys →
        (protocol, plugin.id) ∈ bus.metaproto.keys from
    ⟨spec.others, spec.fits, kept.1,
      fun protocol routed => ⟨kept.2 protocol routed, fun started => absurd started idle⟩,
      hwPluginStart_retires spec fails, names⟩
  rcases start_cases env bus plugin with succeeds | ⟨added, removed, rolls⟩ | refused
  · exact absurd succeeds fails
  · obtain ⟨taken, rfl, sum, left⟩ := rolls.metaproto idFits alive.ready alive.fits
    obtain ⟨distinct, origin⟩ := @mem_registerProvides (env.alloc plugin.id) plugin idFits 0
      (entries plugin.provides) (alive.short plugin listed) _ alive.ready alive.fits alive.distinct
    obtain ⟨still, rest⟩ := mem_unregisterProvides distinct plugin taken
    rw [left]
    refine ⟨still, fun protocol routed => ?_⟩
    obtain ⟨registered, kept⟩ := (rest protocol).mp routed
    rcases origin protocol registered with before | new
    · exact before
    · rw [Nat.sub_zero] at new
      refine absurd (rolls.subset ?_) kept
      rw [sum]
      exact new
  · rw [hwPluginStart_refused_metaproto refused]
    exact ⟨alive.distinct, fun protocol routed => routed⟩

/-! ## A start that goes through -/

/-- The nodes after a start that goes through are the plugin, started, and the others. -/
theorem mem_started (alive : Live bus) (listed : plugin ∈ bus.plugins.nodes) {env : Env}
    (succeeds : Succeeds env bus plugin) {node : Plugin} :
    node ∈ (hwPluginStart env bus plugin).1.plugins.nodes ↔
      node = { plugin with state := .started } ∨
        node ∈ bus.plugins.nodes ∧ node.id ≠ plugin.id := by
  have spec := hwPluginStart_spec env (alive.idFits plugin listed) alive.ready alive.fits
  rw [hwPluginStart_plugins, if_pos (spec.rc.mpr succeeds), HwBus.setState,
    PluginTable.mem_modify]
  constructor
  · rintro ⟨old, found, rfl⟩
    by_cases named : old.id = plugin.id
    · rw [if_pos named, PluginTable.eq_of_id found listed named]
      exact .inl rfl
    · rw [if_neg named]
      exact .inr ⟨found, named⟩
  · rintro (rfl | ⟨found, different⟩)
    · exact ⟨plugin, listed, by rw [if_pos rfl]⟩
    · exact ⟨node, found, by rw [if_neg different]⟩

/-- The routes stay live when a plugin is started. -/
theorem Live.start (alive : Live bus) (listed : plugin ∈ bus.plugins.nodes)
    (idle : plugin.state ≠ .started) {env : Env} (succeeds : Succeeds env bus plugin) :
    Live (hwPluginStart env bus plugin).1 := by
  have idFits := alive.idFits plugin listed
  have spec := hwPluginStart_spec env idFits alive.ready alive.fits
  obtain ⟨distinct, origin⟩ := @mem_registerProvides (env.alloc plugin.id) plugin idFits 0
    (entries plugin.provides) (alive.short plugin listed) _ alive.ready alive.fits alive.distinct
  have nodes := @mem_started bus plugin alive listed env succeeds
  have names : SameNames bus.plugins (hwPluginStart env bus plugin).1.plugins := by
    rw [hwPluginStart_plugins]
    exact sameNames_modify fun _ => rfl
  refine ⟨spec.others.1.trans alive.ready, spec.fits, names.idFits alive.idFits,
    names.short alive.short, ?_, ?_⟩
  · rw [spec.registered succeeds]
    exact distinct
  · rintro ⟨protocol, id⟩ routed
    by_cases own : id = plugin.id
    · subst own
      rw [spec.registered succeeds] at routed
      rcases origin protocol routed with before | new
      · refine .inl ?_
        rcases alive.live _ before with builtin | ⟨other, present, started, named, -⟩
        · exact builtin
        · obtain rfl := PluginTable.eq_of_id present listed named
          exact absurd started idle
      · exact .inr ⟨_, nodes.mpr (.inl rfl), rfl, rfl, List.mem_of_mem_take new⟩
    · rcases alive.live _ ((spec.others.2 protocol id own).mp routed) with
        builtin | ⟨other, present, started, named, provided⟩
      · exact .inl builtin
      · refine .inr ⟨other, nodes.mpr (.inr ⟨present, ?_⟩), started, named, provided⟩
        rw [named]
        exact own

/-- With memory for its first protocol, a plugin that is started has all its routes. -/
theorem PluginsRouted.start (routed : PluginsRouted bus) (alive : Live bus)
    (listed : plugin ∈ bus.plugins.nodes) {env : Env} (succeeds : Succeeds env bus plugin)
    (first : env.alloc plugin.id 0 = true) : PluginsRouted (hwPluginStart env bus plugin).1 := by
  have idFits := alive.idFits plugin listed
  have spec := hwPluginStart_spec env idFits alive.ready alive.fits
  have all : ∀ index, Storable (env.alloc plugin.id) bus.metaproto plugin index :=
    succeeds.registration.resolve_right (not_not.mpr fun _ _ => .inl first)
  have own := (succeeds_keys_iff succeeds idFits alive.ready alive.fits).mpr
    ⟨all, alive.short plugin listed⟩
  intro other present started protocol provided
  rcases (mem_started alive listed succeeds).mp present with rfl | ⟨before, different⟩
  · exact own protocol provided
  · exact (spec.others.2 protocol other.id different).mpr
      (routed other before started protocol provided)

/-! ## Steps -/

/-- A load keeps the routes live. -/
theorem Live.load (alive : Live bus) (env : Env) (id : CString) :
    Live (hwBusLoad env bus id).1 := by
  unfold hwBusLoad
  cases search : bus.plugins.find id with
  | none => exact alive
  | some plugin =>
    obtain ⟨listed, -⟩ := PluginTable.find_some search
    dsimp only
    by_cases idle : plugin.state = .started
    · rw [if_pos idle]
      exact alive
    · rw [if_neg idle]
      by_cases succeeds : Succeeds env bus plugin
      · exact alive.start listed idle succeeds
      · exact alive.leaves listed (alive.start_leaves listed idle succeeds)

/-- A load with memory for a first protocol keeps the started plugins routed. -/
theorem PluginsRouted.load (routed : PluginsRouted bus) (alive : Live bus) {env : Env}
    (first : ∀ id, env.alloc id 0 = true) (id : CString) :
    PluginsRouted (hwBusLoad env bus id).1 := by
  unfold hwBusLoad
  cases search : bus.plugins.find id with
  | none => exact routed
  | some plugin =>
    obtain ⟨listed, -⟩ := PluginTable.find_some search
    dsimp only
    by_cases idle : plugin.state = .started
    · rw [if_pos idle]
      exact routed
    · rw [if_neg idle]
      by_cases succeeds : Succeeds env bus plugin
      · exact routed.start alive listed succeeds (first plugin.id)
      · exact routed.leaves (alive.start_leaves listed idle succeeds)

/-- The turns of the boot loop keep the routes live. -/
theorem Live.turns (alive : Live bus) (env : Env) (ids : List CString) :
    Live (ids.foldl (bootTurn env) bus) :=
  run_invariant Live (fun _ id alive => bootTurn_eq env _ id ▸ alive.load env id) alive ids

/-- With memory for first protocols they keep the started plugins routed. -/
theorem PluginsRouted.turns (routed : PluginsRouted bus) (alive : Live bus) {env : Env}
    (first : ∀ id, env.alloc id 0 = true) (ids : List CString) :
    PluginsRouted (ids.foldl (bootTurn env) bus) := by
  have both := run_invariant (fun bus => Live bus ∧ PluginsRouted bus)
    (fun bus id both => ⟨bootTurn_eq env bus id ▸ both.1.load env id,
      bootTurn_eq env bus id ▸ both.2.load both.1 first id⟩) ⟨alive, routed⟩ ids
  exact both.2

/-- A node that is listed stays listed in a scan. -/
theorem scan_keeps {table : PluginTable} (found : List Discovery) {node : Plugin}
    (listed : node ∈ table.nodes) : node ∈ (found.foldl scanDirRec table).nodes := by
  induction found generalizing table with
  | nil => exact listed
  | cons discovery rest ih =>
    apply ih
    unfold scanDirRec
    split
    · exact listed
    · split
      · exact List.mem_cons_of_mem _ listed
      · exact listed

/-- A scan that discovers names that fit keeps the routes live. -/
theorem Live.scan (alive : Live bus) {found : List Discovery}
    (short : ∀ discovery ∈ found, ∀ protocol ∈ discovery.provides, protocol.length < 64) :
    Live (hwBusScan found bus) := by
  have registry := hwBusScan_metaproto found bus
  by_cases running : bus.initialized = true
  · have table : (hwBusScan found bus).plugins = found.foldl scanDirRec bus.plugins := by
      rw [hwBusScan, if_pos running]
    constructor
    · rw [registry]
      exact alive.ready
    · rw [registry]
      exact alive.fits
    · intro node listed
      rw [table] at listed
      rcases mem_scan listed with old | ⟨discovery, -, rfl⟩
      · exact alive.idFits node old
      · exact snprintf_length discovery.id (by decide)
    · intro node listed
      rw [table] at listed
      rcases mem_scan listed with old | ⟨discovery, member, rfl⟩
      · exact alive.short node old
      · unfold Plugin.ShortProvides scannedPlugin
        rw [entries_copyStrArr]
        exact short discovery member
    · rw [registry]
      exact alive.distinct
    · intro key routed
      rw [registry] at routed
      refine (alive.live key routed).imp_right ?_
      rintro ⟨plugin, listed, rest⟩
      exact ⟨plugin, table ▸ scan_keeps found listed, rest⟩
  · rw [hwBusScan, if_neg running]
    exact alive

/-- A scan keeps the started plugins routed, since it starts none. -/
theorem PluginsRouted.scan (routed : PluginsRouted bus) (found : List Discovery) :
    PluginsRouted (hwBusScan found bus) := by
  by_cases running : bus.initialized = true
  · intro node listed started protocol provided
    rw [hwBusScan_metaproto]
    rw [hwBusScan, if_pos running] at listed
    rcases mem_scan listed with old | ⟨discovery, -, rfl⟩
    · exact routed node old started protocol provided
    · cases started
  · rw [hwBusScan, if_neg running]
    exact routed

/-- Every operation keeps the routes live. -/
theorem Live.step (alive : Live bus) (action : BusAction) (short : action.ShortProvides) :
    Live (busStep bus action) := by
  cases action with
  | plugin action =>
    cases action with
    | load id env => exact alive.load env id
    | stop id =>
      simp only [busStep, pluginStep, hwBusStop]
      split
      · exact alive
      · rename_i search
        exact alive.leaves (PluginTable.find_some search).1 (alive.stop_leaves _)
    | unload id =>
      simp only [busStep, pluginStep, hwBusUnload]
      split
      · exact alive
      · rename_i search
        exact alive.leaves (PluginTable.find_some search).1 (alive.unload_leaves _)
  | scan found => exact alive.scan short
  | bootChain found env =>
    unfold busStep hwBusBootChain
    dsimp only
    split
    · dsimp only
      exact (alive.scan short).turns env bootOrder
    · exact alive

/-- Every operation with memory for first protocols keeps the started plugins routed. -/
theorem PluginsRouted.step (routed : PluginsRouted bus) (alive : Live bus) (action : BusAction)
    (short : action.ShortProvides) (first : action.FirstStored) :
    PluginsRouted (busStep bus action) := by
  cases action with
  | plugin action =>
    cases action with
    | load id env => exact routed.load alive first id
    | stop id =>
      simp only [busStep, pluginStep, hwBusStop]
      split
      · exact routed
      · exact routed.leaves (alive.stop_leaves _)
    | unload id =>
      simp only [busStep, pluginStep, hwBusUnload]
      split
      · exact routed
      · exact routed.leaves (alive.unload_leaves _)
  | scan found => exact routed.scan found
  | bootChain found env =>
    unfold busStep hwBusBootChain
    dsimp only
    split
    · dsimp only
      exact (routed.scan found).turns (alive.scan short) first bootOrder
    · exact routed

end Operations

/-! ## Runs -/

/-- A bus on which nothing is started has the routes of the bus alone. -/
theorem PluginSet.live (plugins : PluginSet)
    (short : ∀ plugin ∈ plugins.table.nodes, plugin.ShortProvides) : Live plugins.bus where
  ready := plugins.excluding.ready
  fits := plugins.excluding.fits
  idFits := plugins.idFits
  short := short
  distinct := by
    show hwBusInit.metaproto.keys.Nodup
    decide +kernel
  live := by
    have builtin : ∀ key ∈ hwBusInit.metaproto.keys, key ∈ builtinKeys := by decide +kernel
    exact fun key routed => .inl (builtin key routed)

/-- In every run of scans, boots, loads, stops and unloads, whatever the callbacks answer and
however registrations fail, a route that is not one of the bus leads to a started plugin that
provides its protocol; and if first protocols have memory, a started plugin has all its routes. -/
theorem routes_follow_plugins (plugins : PluginSet)
    (short : ∀ plugin ∈ plugins.table.nodes, plugin.ShortProvides) (actions : List BusAction)
    (found : ∀ action ∈ actions, action.ShortProvides) :
    AllStates busStep RoutesLive plugins.bus actions ∧
      ((∀ action ∈ actions, action.FirstStored) →
        AllStates busStep PluginsRouted plugins.bus actions) := by
  have start := plugins.live short
  constructor
  · refine (allStates_of_steps ?_ start (allSteps_of_mem found _)).mono fun _ alive => alive.live
    exact fun bus action alive fits => alive.step action fits
  · intro first
    have idle : PluginsRouted plugins.bus :=
      fun plugin listed started => absurd started (plugins.idle plugin listed)
    have steps : AllSteps busStep (fun _ action => action.ShortProvides ∧ action.FirstStored)
        plugins.bus actions :=
      allSteps_of_mem (fun action listed => ⟨found action listed, first action listed⟩) _
    have kept : AllStates busStep (fun bus => Live bus ∧ PluginsRouted bus) plugins.bus actions :=
      allStates_of_steps (fun bus action both fits =>
        ⟨both.1.step action fits.1, both.2.step both.1 action fits.1 fits.2⟩) ⟨start, idle⟩ steps
    exact kept.mono fun _ both => both.2

/-- A plugin that comes, goes and comes back beside one that is refused. -/
def comingPlugins : List BusAction :=
  [.plugin (.load (lit "hap") willingEnv), .plugin (.stop (lit "hap")),
    .plugin (.load (lit "fsp") willingEnv), .plugin (.load (lit "hap") willingEnv)]

/-- The routes follow them, and lead to the one that runs. -/
theorem routes_follow_coming :
    AllStates busStep RoutesLive rivals.bus comingPlugins ∧
      AllStates busStep PluginsRouted rivals.bus comingPlugins ∧
      (lit "FSP", lit "fsp") ∈ (run busStep rivals.bus comingPlugins).metaproto.keys := by
  have quiet : ∀ action ∈ comingPlugins, action.ShortProvides ∧ action.FirstStored := by
    intro action listed
    simp only [comingPlugins, List.mem_cons, List.not_mem_nil, or_false] at listed
    rcases listed with rfl | rfl | rfl | rfl
    all_goals exact ⟨trivial, by simp [BusAction.FirstStored, willingEnv]⟩
  obtain ⟨live, routed⟩ := routes_follow_plugins rivals (by decide +kernel) comingPlugins
    fun action listed => (quiet action listed).1
  exact ⟨live, routed fun action listed => (quiet action listed).2, by decide +kernel⟩

end HwrunOs.Bus
