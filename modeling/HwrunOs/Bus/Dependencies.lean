import HwrunOs.Bus.Exclusion
import Mathlib.Data.Nat.Find

/-!
# Dependencies of started plugins

`hw_plugin_start` checks once that the protocols a plugin requires are registered. A stop, an
unload and a start that fails remove the routes of another plugin without asking who requires
them. The condition under which no started plugin loses its last provider is stated on the state
before each operation; it counts routes, because a protocol name of 64 bytes or more is registered
under its cut name and removed under the whole one.
-/

namespace HwrunOs.Bus

open HwrunOs.Bytes HwrunOs.Runs HwrunOs.Lookup

/-! ## Operations -/

/-- `hw_plugin_start`, `hw_plugin_stop` or `hw_plugin_unload`. -/
inductive Operation where
  /-- `hw_plugin_start`. -/
  | start (env : Env)
  /-- `hw_plugin_stop`. -/
  | stop
  /-- `hw_plugin_unload`. -/
  | unload

/-- The bus after an operation on the plugin with an id, in whatever state the plugin is. -/
def operate (bus : HwBus) (call : CString × Operation) : HwBus :=
  match bus.plugins.find call.1 with
  | none => bus
  | some plugin => match call.2 with
    | .start env => (hwPluginStart env bus plugin).1
    | .stop => hwPluginStop bus plugin
    | .unload => hwPluginUnload bus plugin

/-- Every started plugin has all protocols that it requires registered. -/
def DependenciesMet (bus : HwBus) : Prop :=
  ∀ plugin ∈ bus.plugins.nodes, plugin.state = .started →
    ∀ protocol ∈ entries plugin.requires, bus.metaproto.registered protocol = true

instance (bus : HwBus) : Decidable (DependenciesMet bus) :=
  inferInstanceAs (Decidable (∀ plugin ∈ bus.plugins.nodes, plugin.state = .started →
    ∀ protocol ∈ entries plugin.requires, bus.metaproto.registered protocol = true))

/-! ## The condition -/

/-- A name that is cut to another one in its route. -/
def cutTo (protocol name : CString) : Bool := name != protocol && snprintf 64 name == protocol

/-- A protocol keeps a route when a plugin registers some protocols and removes some: another
plugin has one, or this plugin has more under that name than are removed. -/
def KeepsRoute (registry : Registry) (id : CString) (added removed : List CString)
    (protocol : CString) : Prop :=
  (∃ key ∈ registry.keys, key.1 = protocol ∧ key.2 ≠ id) ∨
    removed.count protocol < registry.keys.count (protocol, id) + added.countP (cutTo protocol)

/-- All protocols that the other started plugins require keep a route. -/
def SparesOthers (bus : HwBus) (plugin : Plugin) (added removed : List CString) : Prop :=
  ∀ other ∈ bus.plugins.nodes, other.id ≠ plugin.id → other.state = .started →
    ∀ protocol ∈ entries other.requires,
      KeepsRoute bus.metaproto plugin.id added removed protocol

/-- A start that comes to the registration: the checks pass and `init` succeeds. -/
def Begins (env : Env) (bus : HwBus) (plugin : Plugin) : Prop :=
  Startable bus.metaproto plugin ∧ (plugin.ops.init.isSome → env.initRc plugin.id = hwrunOk)

/-- The `start` callback fails. -/
def StartFails (env : Env) (plugin : Plugin) : Prop :=
  plugin.ops.start.isSome = true ∧ env.startRc plugin.id ≠ hwrunOk

/-- A start that is undone, with the protocols it registered and those it removes. -/
inductive RollsBack (env : Env) (bus : HwBus) (plugin : Plugin) :
    List CString → List CString → Prop where
  /-- A protocol behind the first cannot be registered. -/
  | registration (index : Nat) (begins : Begins env bus plugin) (positive : 0 < index)
      (stuck : ¬ Storable (env.alloc plugin.id) bus.metaproto plugin index)
      (earlier : ∀ before < index, Storable (env.alloc plugin.id) bus.metaproto plugin before) :
      RollsBack env bus plugin ((entries plugin.provides).take index)
        ((entries plugin.provides).take index)
  /-- `start` fails when all protocols are registered. -/
  | start (begins : Begins env bus plugin) (fails : StartFails env plugin)
      (all : ∀ index, Storable (env.alloc plugin.id) bus.metaproto plugin index) :
      RollsBack env bus plugin (entries plugin.provides) (entries plugin.provides)
  /-- `start` fails after the first protocol could not be registered, which counts as success. -/
  | bare (begins : Begins env bus plugin) (fails : StartFails env plugin)
      (stuck : ¬ Storable (env.alloc plugin.id) bus.metaproto plugin 0) :
      RollsBack env bus plugin [] (entries plugin.provides)

/-- What an operation on a plugin takes away leaves a route for every protocol that another
started plugin requires. -/
def Spares (bus : HwBus) (plugin : Plugin) : Operation → Prop
  | .start env => ∀ added removed, RollsBack env bus plugin added removed →
    SparesOthers bus plugin added removed
  | .stop => SparesOthers bus plugin [] (entries plugin.provides)
  | .unload => plugin.state = .started ∨ plugin.state = .loaded →
    SparesOthers bus plugin [] (entries plugin.provides)

/-- The plugin that an operation finds spares the others. -/
def KeepsProviders (bus : HwBus) (call : CString × Operation) : Prop :=
  ∀ plugin, bus.plugins.find call.1 = some plugin → Spares bus plugin call.2

/-! ## Counting routes -/

/-- A protocol is registered when some key has its name. -/
theorem registered_iff {registry : Registry} {protocol : CString} :
    registry.registered protocol = true ↔ ∃ key ∈ registry.keys, key.1 = protocol := by
  rw [Registry.registered, Registry.keys, List.any_eq_true]
  constructor
  · rintro ⟨route, listed, named⟩
    exact ⟨route.key, List.mem_map_of_mem listed, beq_iff_eq.mp named⟩
  · rintro ⟨key, listed, named⟩
    obtain ⟨route, member, rfl⟩ := List.mem_map.mp listed
    exact ⟨route, member, beq_iff_eq.mpr named⟩

/-- Removing protocols under an id takes as many keys of a name as there are of it. -/
theorem unregisterProvides_count (registry : Registry) (plugin : Plugin) (count : Nat)
    (protocol : CString) :
    (pluginUnregisterProvides registry plugin count).keys.count (protocol, plugin.id) =
      registry.keys.count (protocol, plugin.id) -
        ((entries plugin.provides).take count).count protocol := by
  unfold pluginUnregisterProvides
  generalize (entries plugin.provides).take count = protocols
  induction protocols generalizing registry with
  | nil => rfl
  | cons head rest ih =>
    rw [List.foldl_cons, ih, unregister_keys, List.count_erase, List.count_cons]
    by_cases same : head = protocol
    · subst same
      simp only [beq_self_eq_true, if_true]
      omega
    · have other : ((head, plugin.id) == (protocol, plugin.id)) = false := by simp [same]
      have apart : (head == protocol) = false := by simp [same]
      simp [other, apart]

/-- The registration loop adds to a stored key as often as a name is cut to it. -/
theorem registerProvides_count {alloc : Nat → Bool} {plugin : Plugin}
    (idFits : plugin.id.length < 64) (done : Nat) (protocols : List CString)
    {registry : Registry} (ready : registry.initialized = true) (fits : registry.Fits)
    {protocol : CString} (stored : (protocol, plugin.id) ∈ registry.keys) :
    done ≤ (registerProvidesFrom alloc plugin done protocols registry).2.natAbs ∧
    (registerProvidesFrom alloc plugin done protocols registry).1.keys.count
        (protocol, plugin.id) =
      registry.keys.count (protocol, plugin.id) +
        (protocols.take ((registerProvidesFrom alloc plugin done protocols registry).2.natAbs -
          done)).countP (cutTo protocol) := by
  induction protocols generalizing done registry with
  | nil => simp [registerProvidesFrom]
  | cons head rest ih =>
    have goesOn (after : Registry × Int) (late : done + 1 ≤ after.2.natAbs) :
        (head :: rest).take (after.2.natAbs - done) =
          head :: rest.take (after.2.natAbs - (done + 1)) := by
      rw [show after.2.natAbs - done = (after.2.natAbs - (done + 1)) + 1 by omega,
        List.take_succ_cons]
    cases registerProvides_turn alloc idFits done head rest ready fits with
    | known known after again afterReady afterFits same =>
      -- The route is there and its name is not cut, so no key is added.
      have uncut : snprintf 64 head = head := snprintf_eq (fits _ known)
      have plain : cutTo protocol head = false := by
        rw [cutTo, uncut]
        simp
      obtain ⟨late, count⟩ := ih (done + 1) afterReady afterFits (by rw [same]; exact stored)
      rw [again]
      refine ⟨by omega, ?_⟩
      rw [goesOn _ late, List.countP_cons_of_neg (by simp [plain]), count, same]
    | added new memory after again afterReady afterFits same =>
      have other : head ≠ protocol := by
        rintro rfl
        exact new stored
      obtain ⟨late, count⟩ := ih (done + 1) afterReady afterFits
        (by rw [same]; exact List.mem_cons_of_mem _ stored)
      rw [again]
      refine ⟨by omega, ?_⟩
      rw [goesOn _ late, count, same, List.count_cons]
      by_cases cut : snprintf 64 head = protocol
      · rw [List.countP_cons_of_pos (by simp [cutTo, other, cut]), cut]
        simp only [beq_self_eq_true, if_true]
        omega
      · have apart : ((snprintf 64 head, plugin.id) == (protocol, plugin.id)) = false := by
          simp [cut]
        rw [List.countP_cons_of_neg (by simp [cutTo, cut]), apart]
        simp
    | ended new memory ends =>
      rw [ends]
      simp

/-! ## Routes that are taken away -/

/-- What an operation that takes routes away leaves: the keys of the other plugins, and of its
own plugin's keys those that were there or were added and are not removed. -/
structure Undoes (id : CString) (added removed : List CString) (before after : Registry) :
    Prop where
  /-- The keys of the other plugins. -/
  others : SameOthers id before after
  /-- The keys of its own plugin. -/
  count : ∀ protocol, (protocol, id) ∈ before.keys →
    after.keys.count (protocol, id) =
      before.keys.count (protocol, id) + added.countP (cutTo protocol) - removed.count protocol

/-- An unchanged registry. -/
theorem Undoes.refl (id : CString) (registry : Registry) : Undoes id [] [] registry registry :=
  ⟨.refl id registry, fun _ _ => by simp⟩

/-- A registered protocol stays registered exactly when it keeps a route. -/
theorem Undoes.registered_iff {id : CString} {added removed : List CString}
    {before after : Registry} (undoes : Undoes id added removed before after)
    {protocol : CString} (known : before.registered protocol = true) :
    after.registered protocol = true ↔ KeepsRoute before id added removed protocol := by
  rw [Bus.registered_iff] at known ⊢
  have own (stored : (protocol, id) ∈ before.keys) : (protocol, id) ∈ after.keys ↔
      removed.count protocol <
        before.keys.count (protocol, id) + added.countP (cutTo protocol) := by
    rw [← List.count_pos_iff, undoes.count protocol stored]
    omega
  constructor
  · rintro ⟨⟨name, provider⟩, listed, rfl⟩
    by_cases same : provider = id
    · subst same
      by_cases stored : (name, provider) ∈ before.keys
      · exact .inr ((own stored).mp listed)
      · obtain ⟨key, member, named⟩ := known
        refine .inl ⟨key, member, named, fun same => stored ?_⟩
        have pair : key = (name, provider) := Prod.ext named same
        exact pair ▸ member
    · exact .inl ⟨(name, provider), (undoes.others.2 name provider same).mp listed, rfl, same⟩
  · rintro (⟨⟨name, provider⟩, listed, rfl, other⟩ | left)
    · exact ⟨(name, provider), (undoes.others.2 name provider other).mpr listed, rfl⟩
    · by_cases stored : (protocol, id) ∈ before.keys
      · exact ⟨(protocol, id), (own stored).mpr left, rfl⟩
      · obtain ⟨⟨name, provider⟩, member, rfl⟩ := known
        have other : provider ≠ id := by
          rintro rfl
          exact stored member
        exact ⟨(name, provider), (undoes.others.2 name provider other).mpr member, rfl⟩

/-- A registered protocol keeps its route when nothing is removed. -/
theorem keepsRoute_nil {registry : Registry} {protocol : CString}
    (known : registry.registered protocol = true) (id : CString) :
    KeepsRoute registry id [] [] protocol :=
  ((Undoes.refl id registry).registered_iff known).mp known

/-- Stopping takes the provided protocols away. -/
theorem unregisterProvides_undoes (registry : Registry) (plugin : Plugin) :
    Undoes plugin.id [] (entries plugin.provides) registry
      (pluginUnregisterProvides registry plugin (entries plugin.provides).length) := by
  refine ⟨unregisterProvides_others registry plugin _, fun protocol _ => ?_⟩
  rw [unregisterProvides_count, List.take_length]
  simp

/-- A registration that reaches a number of protocols and is rolled back. -/
theorem registerProvides_undoes {alloc : Nat → Bool} {plugin : Plugin}
    (idFits : plugin.id.length < 64) {registry : Registry} (ready : registry.initialized = true)
    (fits : registry.Fits) {reached : Nat}
    (count : (pluginRegisterProvides alloc registry plugin).2.natAbs = reached) (taken : Nat) :
    Undoes plugin.id ((entries plugin.provides).take reached)
      ((entries plugin.provides).take taken) registry
      (pluginUnregisterProvides (pluginRegisterProvides alloc registry plugin).1 plugin taken) := by
  refine ⟨(registerProvides_others idFits 0 _ ready).trans
    (unregisterProvides_others _ plugin taken), fun protocol stored => ?_⟩
  have loop := (@registerProvides_count alloc plugin idFits 0 (entries plugin.provides) registry
    ready fits protocol stored).2
  rw [unregisterProvides_count, pluginRegisterProvides, loop, Nat.sub_zero]
  rw [pluginRegisterProvides] at count
  rw [count]

/-! ## Plugins that are started no longer -/

/-- A plugin is started no longer and the other started plugins are as they were. -/
def Retires (id : CString) (before after : PluginTable) : Prop :=
  ∀ node, node.state = .started → (node ∈ after.nodes ↔ node ∈ before.nodes ∧ node.id ≠ id)

/-- Writing another state retires a plugin. -/
theorem retires_modify {table : PluginTable} {id : CString} {change : Plugin → Plugin}
    (stopped : ∀ node, (change node).state ≠ .started) :
    Retires id table (table.modify id change) := by
  intro node started
  rw [PluginTable.mem_modify]
  constructor
  · rintro ⟨old, listed, rfl⟩
    by_cases named : old.id = id
    · rw [if_pos named] at started
      exact absurd started (stopped old)
    · rw [if_neg named]
      exact ⟨listed, named⟩
  · rintro ⟨listed, named⟩
    exact ⟨node, listed, by rw [if_neg named]⟩

/-- Retiring twice. -/
theorem Retires.trans {id : CString} {first second third : PluginTable}
    (one : Retires id first second) (two : Retires id second third) : Retires id first third := by
  intro node started
  rw [two node started, one node started, and_assoc, and_self]

/-- After an operation that retires a plugin, the dependencies are met exactly when the protocols
that the others require keep a route. -/
theorem dependencies_retired_iff {bus after : HwBus} (met : DependenciesMet bus)
    {plugin : Plugin} {added removed : List CString}
    (undoes : Undoes plugin.id added removed bus.metaproto after.metaproto)
    (retires : Retires plugin.id bus.plugins after.plugins) :
    DependenciesMet after ↔ SparesOthers bus plugin added removed := by
  constructor
  · intro still other listed different started protocol required
    have present := (retires other started).mpr ⟨listed, different⟩
    exact (undoes.registered_iff (met other listed started protocol required)).mp
      (still other present started protocol required)
  · intro spares other present started protocol required
    obtain ⟨listed, different⟩ := (retires other started).mp present
    exact (undoes.registered_iff (met other listed started protocol required)).mpr
      (spares other listed different started protocol required)

/-- When nothing is removed, all others keep their routes. -/
theorem DependenciesMet.spares {bus : HwBus} (met : DependenciesMet bus) (plugin : Plugin) :
    SparesOthers bus plugin [] [] :=
  fun other listed _ started protocol required =>
    keepsRoute_nil (met other listed started protocol required) plugin.id

/-! ## What a start does -/

/-- How a start can end: it goes through, it is undone, or it ends before the registration. -/
inductive StartEnds (env : Env) (bus : HwBus) (plugin : Plugin) : Prop where
  /-- It goes through. -/
  | through (succeeds : Succeeds env bus plugin)
  /-- It is undone. -/
  | undone (added removed : List CString) (rolls : RollsBack env bus plugin added removed)
      (undoes : Undoes plugin.id added removed bus.metaproto
        (hwPluginStart env bus plugin).1.metaproto)
  /-- It ends before the registration. -/
  | refused (idle : ¬ Begins env bus plugin)
      (same : (hwPluginStart env bus plugin).1.metaproto = bus.metaproto)

/-- A start that goes through is not undone. -/
theorem Succeeds.notUndone {env : Env} {bus : HwBus} {plugin : Plugin}
    (succeeds : Succeeds env bus plugin) (added removed : List CString) :
    ¬ RollsBack env bus plugin added removed := by
  intro rolls
  cases rolls with
  | registration index begins positive stuck earlier =>
    rcases succeeds.registration with all | first
    · exact stuck (all index)
    · exact first (earlier 0 positive)
  | start begins fails all => exact fails.2 (succeeds.start fails.1)
  | bare begins fails stuck => exact fails.2 (succeeds.start fails.1)

/-- Only a start that begins is undone. -/
theorem RollsBack.begins {env : Env} {bus : HwBus} {plugin : Plugin} {added removed : List CString}
    (rolls : RollsBack env bus plugin added removed) : Begins env bus plugin := by
  cases rolls with
  | registration index begins positive stuck earlier => exact begins
  | start begins fails all => exact begins
  | bare begins fails stuck => exact begins

/-- A start is undone in one way only. -/
theorem RollsBack.unique {env : Env} {bus : HwBus} {plugin : Plugin}
    {added removed others gone : List CString} (one : RollsBack env bus plugin added removed)
    (two : RollsBack env bus plugin others gone) : others = added ∧ gone = removed := by
  cases one with
  | registration index begins positive stuck earlier =>
    cases two with
    | registration other _ _ otherStuck otherEarlier =>
      have same : other = index := by
        rcases Nat.lt_trichotomy other index with less | same | more
        · exact absurd (earlier other less) otherStuck
        · exact same
        · exact absurd (otherEarlier index more) stuck
      rw [same]
      exact ⟨rfl, rfl⟩
    | start _ _ all => exact absurd (all index) stuck
    | bare _ _ first => exact absurd (earlier 0 positive) first
  | start begins fails all =>
    cases two with
    | registration other _ _ otherStuck _ => exact absurd (all other) otherStuck
    | start _ _ _ => exact ⟨rfl, rfl⟩
    | bare _ _ first => exact absurd (all 0) first
  | bare begins fails stuck =>
    cases two with
    | registration other _ otherPositive _ otherEarlier =>
      exact absurd (otherEarlier 0 otherPositive) stuck
    | start _ _ all => exact absurd (all 0) stuck
    | bare _ _ _ => exact ⟨rfl, rfl⟩

/-- The registry that a start leaves once `init` succeeded: that of the registration, or what
is left of it when the registration or the `start` callback fails. -/
theorem finishStart_metaproto {env : Env} {bus : HwBus} {plugin : Plugin} :
    (finishStart env bus plugin).1.metaproto =
      if (pluginRegisterProvides (env.alloc plugin.id) bus.metaproto plugin).2 < 0 then
        pluginUnregisterProvides
          (pluginRegisterProvides (env.alloc plugin.id) bus.metaproto plugin).1 plugin
          (pluginRegisterProvides (env.alloc plugin.id) bus.metaproto plugin).2.natAbs
      else if (callStart env bus plugin).2 ≠ hwrunOk then
        pluginUnregisterProvides
          (pluginRegisterProvides (env.alloc plugin.id) bus.metaproto plugin).1 plugin
          (entries plugin.provides).length
      else (pluginRegisterProvides (env.alloc plugin.id) bus.metaproto plugin).1 := by
  have rc (other : HwBus) : (callStart env other plugin).2 = (callStart env bus plugin).2 := by
    unfold callStart
    split <;> rfl
  simp only [finishStart, setState_metaproto, rc]
  split
  · rfl
  · split
    · simp only [setState_metaproto, callStart_metaproto]
    · simp only [setState_metaproto, callStart_metaproto]

/-- The first protocol that cannot be registered, if there is one. -/
theorem storable_or_stuck (alloc : Nat → Bool) (registry : Registry) (plugin : Plugin) :
    (∀ index, Storable alloc registry plugin index) ∨
      ∃ index, ¬ Storable alloc registry plugin index ∧
        ∀ earlier < index, Storable alloc registry plugin earlier := by
  classical
  by_cases all : ∀ index, Storable alloc registry plugin index
  · exact .inl all
  · have some_ : ∃ index, ¬ Storable alloc registry plugin index := not_forall.mp all
    exact .inr ⟨Nat.find some_, Nat.find_spec some_,
      fun earlier less => not_not.mp (Nat.find_min some_ less)⟩

/-- A start goes through, is undone or does not begin. -/
theorem start_cases (env : Env) (bus : HwBus) (plugin : Plugin) :
    Succeeds env bus plugin ∨ (∃ added removed, RollsBack env bus plugin added removed) ∨
      ¬ Begins env bus plugin := by
  by_cases begins : Begins env bus plugin
  · have through (holds : RegistrationHolds (env.alloc plugin.id) bus.metaproto plugin)
        (runs : ¬ StartFails env plugin) : Succeeds env bus plugin := by
      refine ⟨begins.1, begins.2, ?_, holds⟩
      intro present
      by_contra failed
      exact runs ⟨present, failed⟩
    by_cases fails : StartFails env plugin
    · rcases storable_or_stuck (env.alloc plugin.id) bus.metaproto plugin with
        all | ⟨index, stuck, earlier⟩
      · exact .inr (.inl ⟨_, _, .start begins fails all⟩)
      · rcases Nat.eq_zero_or_pos index with rfl | positive
        · exact .inr (.inl ⟨_, _, .bare begins fails stuck⟩)
        · exact .inr (.inl ⟨_, _, .registration index begins positive stuck earlier⟩)
    · rcases storable_or_stuck (env.alloc plugin.id) bus.metaproto plugin with
        all | ⟨index, stuck, earlier⟩
      · exact .inl (through (.inl all) fails)
      · rcases Nat.eq_zero_or_pos index with rfl | positive
        · exact .inl (through (.inr stuck) fails)
        · exact .inr (.inl ⟨_, _, .registration index begins positive stuck earlier⟩)
  · exact .inr (.inr begins)

/-- The count of the registration when a protocol cannot be registered. -/
theorem pluginRegisterProvides_stuck {alloc : Nat → Bool} {plugin : Plugin}
    (idFits : plugin.id.length < 64) {registry : Registry} (ready : registry.initialized = true)
    (fits : registry.Fits) {index : Nat} (stuck : ¬ Storable alloc registry plugin index)
    (earlier : ∀ before < index, Storable alloc registry plugin before) :
    (pluginRegisterProvides alloc registry plugin).2 = -(index : Int) := by
  rcases (pluginRegisterProvides_ends idFits ready fits).2 with
    ⟨all, -, -⟩ | ⟨other, -, otherStuck, otherEarlier, count, -⟩
  · exact absurd (all index (Nat.zero_le index)) stuck
  · rcases Nat.lt_trichotomy other index with less | rfl | more
    · exact absurd (earlier other less) otherStuck
    · exact count
    · exact absurd (otherEarlier index (Nat.zero_le index) more) stuck

/-- The count of the registration when all protocols can be registered. -/
theorem pluginRegisterProvides_all {alloc : Nat → Bool} {plugin : Plugin}
    (idFits : plugin.id.length < 64) {registry : Registry} (ready : registry.initialized = true)
    (fits : registry.Fits) (all : ∀ index, Storable alloc registry plugin index) :
    (pluginRegisterProvides alloc registry plugin).2 =
      ((entries plugin.provides).length : Int) := by
  rcases (pluginRegisterProvides_ends idFits ready fits).2 with
    ⟨-, count, -⟩ | ⟨other, -, stuck, -⟩
  · exact count
  · exact absurd (all other) stuck

/-- The registry of a start that begins. -/
theorem Begins.metaproto {env : Env} {bus : HwBus} {plugin : Plugin}
    (begins : Begins env bus plugin) :
    (hwPluginStart env bus plugin).1.metaproto =
      if (pluginRegisterProvides (env.alloc plugin.id) bus.metaproto plugin).2 < 0 then
        pluginUnregisterProvides
          (pluginRegisterProvides (env.alloc plugin.id) bus.metaproto plugin).1 plugin
          (pluginRegisterProvides (env.alloc plugin.id) bus.metaproto plugin).2.natAbs
      else if (callStart env bus plugin).2 ≠ hwrunOk then
        pluginUnregisterProvides
          (pluginRegisterProvides (env.alloc plugin.id) bus.metaproto plugin).1 plugin
          (entries plugin.provides).length
      else (pluginRegisterProvides (env.alloc plugin.id) bus.metaproto plugin).1 := by
  have initialised : (callInit env (hwPluginInjectRuntime bus plugin) plugin).2 = hwrunOk :=
    callInit_ok.mpr begins.2
  have rc (other : HwBus) : (callStart env other plugin).2 = (callStart env bus plugin).2 := by
    unfold callStart
    split <;> rfl
  rw [hwPluginStart_passed begins.1, if_neg (not_not.mpr initialised), finishStart_metaproto,
    callInit_metaproto, inject_metaproto, rc]

/-- The callback fails exactly when it is there and does not succeed. -/
theorem startFails_iff {env : Env} {bus : HwBus} {plugin : Plugin} :
    (callStart env bus plugin).2 ≠ hwrunOk ↔ StartFails env plugin := by
  rw [Ne, callStart_ok, StartFails]
  tauto

/-- The registry of a start that is undone: the protocols that were reached are registered, and
those that are removed are removed. -/
theorem RollsBack.metaproto {env : Env} {bus : HwBus} {plugin : Plugin}
    {added removed : List CString} (rolls : RollsBack env bus plugin added removed)
    (idFits : plugin.id.length < 64) (ready : bus.metaproto.initialized = true)
    (fits : bus.metaproto.Fits) :
    ∃ taken, removed = (entries plugin.provides).take taken ∧
      added = (entries plugin.provides).take
        (pluginRegisterProvides (env.alloc plugin.id) bus.metaproto plugin).2.natAbs ∧
      (hwPluginStart env bus plugin).1.metaproto = pluginUnregisterProvides
        (pluginRegisterProvides (env.alloc plugin.id) bus.metaproto plugin).1 plugin taken := by
  have left := rolls.begins.metaproto
  cases rolls with
  | registration index begins positive stuck earlier =>
    have count := pluginRegisterProvides_stuck idFits ready fits stuck earlier
    have many : (-(index : Int)).natAbs = index := by rw [Int.natAbs_neg, Int.natAbs_natCast]
    rw [count, if_pos (by omega), many] at left
    rw [count, many]
    exact ⟨index, rfl, rfl, left⟩
  | start begins fails all =>
    have count := pluginRegisterProvides_all idFits ready fits all
    rw [count, if_neg (by omega), if_pos (startFails_iff.mpr fails)] at left
    rw [count, Int.natAbs_natCast]
    exact ⟨_, (List.take_length).symm, (List.take_length).symm, left⟩
  | bare begins fails stuck =>
    have count := pluginRegisterProvides_stuck idFits ready fits stuck
      fun _ less => absurd less (Nat.not_lt_zero _)
    rw [count, if_neg (by omega), if_pos (startFails_iff.mpr fails)] at left
    rw [count]
    exact ⟨_, (List.take_length).symm, rfl, left⟩

/-- A start that does not begin leaves the registry as it is. -/
theorem hwPluginStart_refused_metaproto {env : Env} {bus : HwBus} {plugin : Plugin}
    (idle : ¬ Begins env bus plugin) :
    (hwPluginStart env bus plugin).1.metaproto = bus.metaproto := by
  by_cases passed : Startable bus.metaproto plugin
  · have init : (callInit env (hwPluginInjectRuntime bus plugin) plugin).2 ≠ hwrunOk :=
      fun done => idle ⟨passed, callInit_ok.mp done⟩
    rw [hwPluginStart_passed passed, if_pos init, setState_metaproto, callInit_metaproto,
      inject_metaproto]
  · rw [(hwPluginStart_refused env passed).1, setState_metaproto]

/-- `hw_plugin_start` ends in one of these ways. -/
theorem hwPluginStart_ends (env : Env) {bus : HwBus} {plugin : Plugin}
    (idFits : plugin.id.length < 64) (ready : bus.metaproto.initialized = true)
    (fits : bus.metaproto.Fits) : StartEnds env bus plugin := by
  rcases start_cases env bus plugin with succeeds | ⟨added, removed, rolls⟩ | idle
  · exact .through succeeds
  · refine .undone added removed rolls ?_
    obtain ⟨taken, rfl, rfl, left⟩ := rolls.metaproto idFits ready fits
    rw [left]
    exact registerProvides_undoes idFits ready fits rfl taken
  · exact .refused idle (hwPluginStart_refused_metaproto idle)

/-! ## Every run -/

/-- A bus that can go on: the registry is ready, all names fit and the dependencies are met. -/
structure Dependable (bus : HwBus) : Prop where
  /-- The registry accepts registrations. -/
  ready : bus.metaproto.initialized = true
  /-- The protocols of the routes fit. -/
  fits : bus.metaproto.Fits
  /-- The ids of the plugins fit. -/
  idFits : ∀ plugin ∈ bus.plugins.nodes, plugin.id.length < 64
  /-- Started plugins have what they require. -/
  met : DependenciesMet bus

/-- Writing a plugin keeps the ids. -/
theorem modify_idFits {table : PluginTable} {id : CString} {change : Plugin → Plugin}
    (idFits : ∀ plugin ∈ table.nodes, plugin.id.length < 64) :
    ∀ plugin ∈ (table.modify id change).nodes, plugin.id.length < 64 := by
  intro node listed
  obtain ⟨old, found, rfl⟩ := PluginTable.mem_modify.mp listed
  split
  · exact idFits old found
  · exact idFits old found

/-- What a stop does. -/
theorem hwPluginStop_effect {bus : HwBus} (fits : bus.metaproto.Fits)
    (idFits : ∀ node ∈ bus.plugins.nodes, node.id.length < 64) (plugin : Plugin) :
    Undoes plugin.id [] (entries plugin.provides) bus.metaproto
        (hwPluginStop bus plugin).metaproto ∧
      (hwPluginStop bus plugin).metaproto.Fits ∧
      Retires plugin.id bus.plugins (hwPluginStop bus plugin).plugins ∧
      ∀ node ∈ (hwPluginStop bus plugin).plugins.nodes, node.id.length < 64 := by
  rw [hwPluginStop_metaproto, hwPluginStop_plugins]
  refine ⟨unregisterProvides_undoes _ plugin, unregisterProvides_fits fits plugin _,
    retires_modify ?_, modify_idFits idFits⟩
  intro node same
  cases same

/-- The registry and the table after an unload: those of the stop, if there is one, with the
plugin uninstalled. -/
theorem hwPluginUnload_eq (bus : HwBus) (plugin : Plugin) :
    let stopped := if plugin.state = .started ∨ plugin.state = .loaded then hwPluginStop bus plugin
      else bus
    (hwPluginUnload bus plugin).metaproto = stopped.metaproto ∧
      (hwPluginUnload bus plugin).plugins = stopped.plugins.modify plugin.id fun node =>
        { node with handle := none, state := .uninstalled } := by
  intro stopped
  unfold hwPluginUnload
  dsimp only
  split
  · exact ⟨rfl, rfl⟩
  · exact ⟨rfl, rfl⟩

/-- What an unload does. -/
theorem hwPluginUnload_effect {bus : HwBus} (fits : bus.metaproto.Fits)
    (idFits : ∀ node ∈ bus.plugins.nodes, node.id.length < 64) (plugin : Plugin) :
    Undoes plugin.id [] (if plugin.state = .started ∨ plugin.state = .loaded then
        entries plugin.provides else []) bus.metaproto (hwPluginUnload bus plugin).metaproto ∧
      (hwPluginUnload bus plugin).metaproto.Fits ∧
      Retires plugin.id bus.plugins (hwPluginUnload bus plugin).plugins ∧
      ∀ node ∈ (hwPluginUnload bus plugin).plugins.nodes, node.id.length < 64 := by
  obtain ⟨registry, table⟩ := hwPluginUnload_eq bus plugin
  rw [registry, table]
  have gone : ∀ node : Plugin,
      { node with handle := none, state := PluginState.uninstalled }.state ≠ .started := by
    intro node same
    cases same
  by_cases running : plugin.state = .started ∨ plugin.state = .loaded
  · obtain ⟨undoes, left, retires, short⟩ := hwPluginStop_effect fits idFits plugin
    rw [if_pos running, if_pos running]
    exact ⟨undoes, left, retires.trans (retires_modify gone), modify_idFits short⟩
  · rw [if_neg running, if_neg running]
    exact ⟨.refl plugin.id _, fits, retires_modify gone, modify_idFits idFits⟩

/-- A start that does not go through retires its plugin. -/
theorem hwPluginStart_retires {env : Env} {bus : HwBus} {plugin : Plugin}
    (spec : StartSpec env bus plugin (hwPluginStart env bus plugin))
    (fails : ¬ Succeeds env bus plugin) :
    Retires plugin.id bus.plugins (hwPluginStart env bus plugin).1.plugins := by
  rw [hwPluginStart_plugins, if_neg (mt spec.rc.mp fails)]
  refine retires_modify ?_
  intro node same
  cases same

/-- A start that goes through keeps the dependencies met: the plugin's own were checked, and
registration takes nothing away. -/
theorem DependenciesMet.start {env : Env} {bus : HwBus} (met : DependenciesMet bus)
    {plugin : Plugin} (listed : plugin ∈ bus.plugins.nodes)
    (spec : StartSpec env bus plugin (hwPluginStart env bus plugin))
    (succeeds : Succeeds env bus plugin) :
    DependenciesMet (hwPluginStart env bus plugin).1 := by
  have stays {protocol : CString} (known : bus.metaproto.registered protocol = true) :
      (hwPluginStart env bus plugin).1.metaproto.registered protocol = true := by
    rw [spec.registered succeeds]
    exact registered_registerProvidesFrom 0 _ known
  intro node present started protocol required
  rw [hwPluginStart_plugins, if_pos (spec.rc.mpr succeeds), HwBus.setState] at present
  obtain ⟨old, found, rfl⟩ := PluginTable.mem_modify.mp present
  by_cases named : old.id = plugin.id
  · rw [if_pos named] at required
    obtain ⟨names, whole, all⟩ := hwMetaprotoCheckDeps_ok.mp succeeds.startable.1
    have same := PluginTable.eq_of_id found listed named
    have required : protocol ∈ entries old.requires := required
    rw [same, whole] at required
    exact stays (all protocol required)
  · rw [if_neg named] at started required
    exact stays (met old found started protocol required)

/-- What decides about an operation: it leaves a dependable bus when a condition holds, and
otherwise one whose dependencies are not met. -/
def Decides (condition : Prop) (after : HwBus) : Prop :=
  (condition → Dependable after) ∧ (¬ condition → ¬ DependenciesMet after)

section Operations

variable {bus : HwBus} {plugin : Plugin}

/-- An operation that retires its plugin is decided by what it takes away. -/
theorem Dependable.retired (dependable : Dependable bus) {after : HwBus}
    {added removed : List CString}
    (undoes : Undoes plugin.id added removed bus.metaproto after.metaproto)
    (fits : after.metaproto.Fits) (retires : Retires plugin.id bus.plugins after.plugins)
    (idFits : ∀ node ∈ after.plugins.nodes, node.id.length < 64) :
    Decides (SparesOthers bus plugin added removed) after := by
  have met_iff := dependencies_retired_iff dependable.met undoes retires
  refine ⟨fun spares => ?_, fun misses met => misses (met_iff.mp met)⟩
  exact ⟨undoes.others.1.trans dependable.ready, fits, idFits, met_iff.mpr spares⟩

/-- A start. -/
theorem Dependable.start (dependable : Dependable bus) (env : Env)
    (listed : plugin ∈ bus.plugins.nodes) :
    Decides (Spares bus plugin (.start env)) (hwPluginStart env bus plugin).1 := by
  have idFits := dependable.idFits plugin listed
  have spec := hwPluginStart_spec env idFits dependable.ready dependable.fits
  have short : ∀ node ∈ (hwPluginStart env bus plugin).1.plugins.nodes, node.id.length < 64 := by
    rw [hwPluginStart_plugins]
    exact modify_idFits dependable.idFits
  rcases hwPluginStart_ends env idFits dependable.ready dependable.fits with
    succeeds | ⟨added, removed, rolls, undoes⟩ | ⟨idle, same⟩
  · refine ⟨fun _ => ⟨spec.others.1.trans dependable.ready, spec.fits, short,
      dependable.met.start listed spec succeeds⟩, fun misses => absurd ?_ misses⟩
    exact fun added removed rolls => absurd rolls (succeeds.notUndone added removed)
  · have fails : ¬ Succeeds env bus plugin := fun succeeds => succeeds.notUndone _ _ rolls
    have decided :=
      dependable.retired undoes spec.fits (hwPluginStart_retires spec fails) short
    refine ⟨fun spares => decided.1 (spares added removed rolls), fun misses => decided.2 ?_⟩
    refine fun spares => misses fun others gone other => ?_
    obtain ⟨rfl, rfl⟩ := rolls.unique other
    exact spares
  · have fails : ¬ Succeeds env bus plugin :=
      fun succeeds => idle ⟨succeeds.startable, succeeds.init⟩
    have undoes : Undoes plugin.id [] [] bus.metaproto
        (hwPluginStart env bus plugin).1.metaproto := by
      rw [same]
      exact .refl plugin.id _
    have decided :=
      dependable.retired undoes spec.fits (hwPluginStart_retires spec fails) short
    refine ⟨fun _ => decided.1 (dependable.met.spares plugin), fun misses => absurd ?_ misses⟩
    exact fun added removed rolls => absurd rolls.begins idle

/-- A stop. -/
theorem Dependable.stop (dependable : Dependable bus) :
    Decides (Spares bus plugin .stop) (hwPluginStop bus plugin) := by
  obtain ⟨undoes, fits, retires, short⟩ :=
    hwPluginStop_effect dependable.fits dependable.idFits plugin
  exact dependable.retired undoes fits retires short

/-- An unload. -/
theorem Dependable.unload (dependable : Dependable bus) :
    Decides (Spares bus plugin .unload) (hwPluginUnload bus plugin) := by
  obtain ⟨undoes, fits, retires, short⟩ :=
    hwPluginUnload_effect dependable.fits dependable.idFits plugin
  have decided := dependable.retired undoes fits retires short
  by_cases running : plugin.state = .started ∨ plugin.state = .loaded
  · rw [if_pos running] at decided
    exact ⟨fun spares => decided.1 (spares running),
      fun misses => decided.2 fun spares => misses fun _ => spares⟩
  · rw [if_neg running] at decided
    refine ⟨fun _ => decided.1 (dependable.met.spares plugin), fun misses => absurd ?_ misses⟩
    exact fun stopping => absurd stopping running

end Operations

/-- An operation is decided by whether it keeps providers. -/
theorem Dependable.operate {bus : HwBus} (dependable : Dependable bus)
    (call : CString × Operation) : Decides (KeepsProviders bus call) (operate bus call) := by
  obtain ⟨id, operation⟩ := call
  cases search : bus.plugins.find id with
  | none =>
    have keeps : KeepsProviders bus (id, operation) := by
      intro plugin found
      rw [search] at found
      cases found
    refine ⟨fun _ => ?_, fun misses => absurd keeps misses⟩
    rw [Bus.operate]
    simp only [search]
    exact dependable
  | some plugin =>
    obtain ⟨listed, -⟩ := PluginTable.find_some search
    have spares : KeepsProviders bus (id, operation) ↔ Spares bus plugin operation := by
      constructor
      · exact fun keeps => keeps plugin search
      · intro spares other found
        rw [search] at found
        obtain rfl := Option.some.inj found
        exact spares
    rw [spares, Bus.operate]
    simp only [search]
    cases operation with
    | start env => exact dependable.start env listed
    | stop => exact dependable.stop
    | unload => exact dependable.unload

/-- A bus on which nothing is started is dependable. -/
theorem PluginSet.dependable (plugins : PluginSet) : Dependable plugins.bus where
  ready := plugins.excluding.ready
  fits := plugins.excluding.fits
  idFits := plugins.idFits
  met := fun plugin listed started => absurd started (plugins.idle plugin listed)

/-- A plugin that requires what another one provides. -/
def providerAndUser : PluginSet where
  table := ⟨[installedPlugin (lit "pmp") [lit "PMP"] [],
    { installedPlugin (lit "shell") [lit "SHELL"] [] with requires := some [lit "PMP"] }],
      by decide +kernel⟩
  idFits := by decide +kernel
  idle := by decide +kernel

end HwrunOs.Bus
