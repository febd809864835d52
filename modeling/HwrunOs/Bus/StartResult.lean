import HwrunOs.Bus.Dependencies

/-!
# What a start returns and what it leaves

`plugin_register_provides` returns the negated number of routes when a registration fails, which
for the first protocol is no different from success. The rollback removes routes under the whole
names and only as often as they are provided, so that cut names, and routes that the plugin had
before, may remain. The condition counts the routes of each name.
-/

namespace HwrunOs.Bus

open HwrunOs.Bytes HwrunOs.Lookup

/-! ## The claim and its condition -/

/-- On success every provided protocol is registered under the id of the plugin; on failure no route
of the plugin remains and its state is the one after an error. -/
def StartSound (env : Env) (bus : HwBus) (plugin : Plugin) : Prop :=
  ((hwPluginStart env bus plugin).2 = hwrunOk →
      ∀ protocol ∈ entries plugin.provides,
        (protocol, plugin.id) ∈ (hwPluginStart env bus plugin).1.metaproto.keys) ∧
    ((hwPluginStart env bus plugin).2 ≠ hwrunOk →
      (∀ protocol, (protocol, plugin.id) ∉ (hwPluginStart env bus plugin).1.metaproto.keys) ∧
        ∀ node ∈ (hwPluginStart env bus plugin).1.plugins.nodes, node.id = plugin.id →
          node.state = .error)

/-- How many routes under a name the registration of some protocols adds: one for every longer name
that is cut to it, and one for the name itself if it is the first of these and has no route yet. -/
def addedRoutes (registry : Registry) (id : CString) (added : List CString) (protocol : CString) :
    Nat :=
  added.countP (cutTo protocol) +
    if (protocol, id) ∉ registry.keys ∧
        added.find? (fun name => snprintf 64 name == protocol) = some protocol then 1 else 0

/-- No more routes of a name were there or are added than are removed. -/
def RemovesAll (registry : Registry) (id : CString) (added removed : List CString) : Prop :=
  ∀ protocol, registry.keys.count (protocol, id) + addedRoutes registry id added protocol ≤
    removed.count protocol

/-- A start that goes through registers all protocols, under names that fit their field. A start
that fails removes as many routes of every name as there are. -/
structure StartCounts (env : Env) (bus : HwBus) (plugin : Plugin) : Prop where
  /-- Every protocol can be registered, the first one too. -/
  all : Succeeds env bus plugin →
    ∀ index, Storable (env.alloc plugin.id) bus.metaproto plugin index
  /-- No name is cut. -/
  fits : Succeeds env bus plugin → ∀ protocol ∈ entries plugin.provides, protocol.length < 64
  /-- A start that is undone leaves nothing. -/
  undone : ∀ added removed, RollsBack env bus plugin added removed →
    RemovesAll bus.metaproto plugin.id added removed
  /-- A plugin that is refused has no routes. -/
  refused : ¬ Begins env bus plugin → ∀ protocol, (protocol, plugin.id) ∉ bus.metaproto.keys

/-! ## Counting what is added -/

/-- A name that is cut to a stored name is that name or longer. -/
theorem cutTo_iff {protocol name : CString} :
    cutTo protocol name = true ↔ name ≠ protocol ∧ snprintf 64 name = protocol := by
  simp [cutTo]

/-- The count of the registration loop is at least what it began with. -/
theorem registerProvides_late (alloc : Nat → Bool) (plugin : Plugin) (done : Nat)
    (protocols : List CString) (registry : Registry) :
    done ≤ (registerProvidesFrom alloc plugin done protocols registry).2.natAbs := by
  induction protocols generalizing done registry with
  | nil => exact Nat.le_of_eq (Int.natAbs_natCast done).symm
  | cons head rest ih =>
    rw [registerProvidesFrom]
    dsimp only
    split
    · rw [Int.natAbs_neg, Int.natAbs_natCast]
    · exact Nat.le_of_succ_le (ih (done + 1) _)

/-- A name that is not stored under another one adds nothing to it. -/
theorem addedRoutes_cons_of_ne {registry : Registry} {id head protocol : CString}
    (other : snprintf 64 head ≠ protocol) (rest : List CString) :
    addedRoutes registry id (head :: rest) protocol = addedRoutes registry id rest protocol := by
  rw [addedRoutes, addedRoutes, List.countP_cons_of_neg (by simp [cutTo, other]),
    List.find?_cons_of_neg (by simp [other])]

/-- The first name that is stored under a new one adds one route to it, and those behind it add one
for every cut. -/
theorem addedRoutes_cons_of_new {registry : Registry} {id head : CString} {protocol : CString}
    (new : (protocol, id) ∉ registry.keys) (same : snprintf 64 head = protocol)
    (rest : List CString) :
    addedRoutes registry id (head :: rest) protocol = rest.countP (cutTo protocol) + 1 := by
  rw [addedRoutes, List.find?_cons_of_pos (by simp [same])]
  by_cases whole : head = protocol
  · rw [List.countP_cons_of_neg (by simp [cutTo, whole]), if_pos ⟨new, by rw [whole]⟩]
  · have first : ¬ ((protocol, id) ∉ registry.keys ∧ some head = some protocol) :=
      fun both => whole (Option.some.inj both.2)
    rw [List.countP_cons_of_pos (by simp [cutTo, whole, same]), if_neg first]

/-- The registration loop adds routes to a name that is stored for the first time. -/
theorem registerProvides_new {alloc : Nat → Bool} {plugin : Plugin}
    (idFits : plugin.id.length < 64) (done : Nat) (protocols : List CString)
    {registry : Registry} (ready : registry.initialized = true) (fits : registry.Fits)
    {protocol : CString} (new : (protocol, plugin.id) ∉ registry.keys) :
    (registerProvidesFrom alloc plugin done protocols registry).1.keys.count
        (protocol, plugin.id) = addedRoutes registry plugin.id
      (protocols.take ((registerProvidesFrom alloc plugin done protocols registry).2.natAbs -
        done)) protocol := by
  induction protocols generalizing done registry with
  | nil => simp [registerProvidesFrom, addedRoutes, List.count_eq_zero.mpr new]
  | cons head rest ih =>
    have goesOn (after : Registry) :
        (head :: rest).take ((registerProvidesFrom alloc plugin (done + 1) rest after).2.natAbs -
            done) =
          head :: rest.take
            ((registerProvidesFrom alloc plugin (done + 1) rest after).2.natAbs - (done + 1)) := by
      have late := registerProvides_late alloc plugin (done + 1) rest after
      generalize (registerProvidesFrom alloc plugin (done + 1) rest after).2.natAbs = count at late
      rw [show count - done = (count - (done + 1)) + 1 by omega, List.take_succ_cons]
    cases registerProvides_turn alloc idFits done head rest ready fits with
    | known known after again afterReady afterFits same =>
      -- The route is there and its name is not cut, so no key is added.
      have other : snprintf 64 head ≠ protocol := by
        rw [snprintf_eq (fits _ known)]
        rintro rfl
        exact new known
      rw [again, goesOn, addedRoutes_cons_of_ne other,
        ih (done + 1) afterReady afterFits (by rw [same]; exact new), addedRoutes, addedRoutes,
        same]
    | added fresh memory after again afterReady afterFits same =>
      rw [again, goesOn]
      by_cases cut : snprintf 64 head = protocol
      · -- From here on the name is stored.
        rw [addedRoutes_cons_of_new new cut,
          (registerProvides_count idFits (done + 1) rest afterReady afterFits
            (by rw [same, cut]; exact List.mem_cons_self)).2,
          same, cut, List.count_cons_self, List.count_eq_zero.mpr new]
        omega
      · have apart : (protocol, plugin.id) ≠ (snprintf 64 head, plugin.id) :=
          fun pair => cut (congrArg Prod.fst pair).symm
        have still : (protocol, plugin.id) ∉ after.keys := by
          rw [same]
          exact fun listed => (List.mem_cons.mp listed).elim apart new
        rw [addedRoutes_cons_of_ne cut, ih (done + 1) afterReady afterFits still, addedRoutes,
          addedRoutes]
        simp only [still, new, not_false_eq_true, true_and]
    | ended fresh memory ends =>
      rw [ends]
      simp only [Int.natAbs_neg, Int.natAbs_natCast, Nat.sub_self, List.take_zero]
      rw [List.count_eq_zero.mpr new]
      simp [addedRoutes]

/-- The registration loop adds routes of every name. -/
theorem registerProvides_added {alloc : Nat → Bool} {plugin : Plugin}
    (idFits : plugin.id.length < 64) {registry : Registry} (ready : registry.initialized = true)
    (fits : registry.Fits) (protocol : CString) :
    (pluginRegisterProvides alloc registry plugin).1.keys.count (protocol, plugin.id) =
      registry.keys.count (protocol, plugin.id) + addedRoutes registry plugin.id
        ((entries plugin.provides).take
          (pluginRegisterProvides alloc registry plugin).2.natAbs) protocol := by
  unfold pluginRegisterProvides
  by_cases stored : (protocol, plugin.id) ∈ registry.keys
  · rw [(registerProvides_count idFits 0 _ ready fits stored).2, addedRoutes,
      if_neg (fun new => new.1 stored), Nat.add_zero, Nat.sub_zero]
  · rw [registerProvides_new idFits 0 _ ready fits stored, List.count_eq_zero.mpr stored,
      Nat.zero_add, Nat.sub_zero]

/-! ## What a start leaves -/

/-- After a start that is undone, no route of the plugin remains exactly when as many are removed as
there are. -/
theorem undone_keys_iff {env : Env} {bus : HwBus} {plugin : Plugin}
    {added removed : List CString} (rolls : RollsBack env bus plugin added removed)
    (idFits : plugin.id.length < 64) (ready : bus.metaproto.initialized = true)
    (fits : bus.metaproto.Fits) :
    (∀ protocol, (protocol, plugin.id) ∉ (hwPluginStart env bus plugin).1.metaproto.keys) ↔
      RemovesAll bus.metaproto plugin.id added removed := by
  obtain ⟨taken, rfl, rfl, left⟩ := rolls.metaproto idFits ready fits
  unfold RemovesAll
  refine forall_congr' fun protocol => ?_
  rw [left, ← List.count_eq_zero, unregisterProvides_count,
    registerProvides_added idFits ready fits]
  omega

/-- A start that fails leaves its plugin in the state after an error. -/
theorem failed_state {env : Env} {bus : HwBus} {plugin : Plugin}
    (failed : (hwPluginStart env bus plugin).2 ≠ hwrunOk) :
    ∀ node ∈ (hwPluginStart env bus plugin).1.plugins.nodes, node.id = plugin.id →
      node.state = .error := by
  intro node listed named
  rw [hwPluginStart_plugins, if_neg failed] at listed
  obtain ⟨old, -, rfl⟩ := PluginTable.mem_modify.mp listed
  by_cases own : old.id = plugin.id
  · rw [if_pos own]
  · rw [if_neg own] at named
    exact absurd named own

/-- A start that goes through is sound exactly when all protocols can be registered under names that
fit. -/
theorem succeeds_keys_iff {env : Env} {bus : HwBus} {plugin : Plugin}
    (succeeds : Succeeds env bus plugin) (idFits : plugin.id.length < 64)
    (ready : bus.metaproto.initialized = true) (fits : bus.metaproto.Fits) :
    (∀ protocol ∈ entries plugin.provides,
        (protocol, plugin.id) ∈ (hwPluginStart env bus plugin).1.metaproto.keys) ↔
      (∀ index, Storable (env.alloc plugin.id) bus.metaproto plugin index) ∧
        ∀ protocol ∈ entries plugin.provides, protocol.length < 64 := by
  have spec := hwPluginStart_spec env idFits ready fits
  have loop := @pluginRegisterProvides_ends (env.alloc plugin.id) _ idFits _ ready fits
  rw [spec.registered succeeds]
  constructor
  · intro registered
    have short : ∀ protocol ∈ entries plugin.provides, protocol.length < 64 :=
      fun protocol listed => loop.1 _ (registered protocol listed)
    rcases succeeds.registration with all | stuck
    · exact ⟨all, short⟩
    · -- Without its first protocol the registration leaves the registry as it is.
      refine absurd ?_ stuck
      intro protocol found
      have listed : protocol ∈ entries plugin.provides := List.mem_of_getElem? found
      have known := registered protocol listed
      rcases loop.2 with ⟨all, -, -⟩ | ⟨index, -, otherStuck, earlier, -, same⟩
      · exact all 0 (Nat.le_refl 0) protocol found
      · rcases Nat.eq_zero_or_pos index with rfl | positive
        · rw [same rfl] at known
          exact .inr (.inl known)
        · exact earlier 0 (Nat.le_refl 0) positive protocol found
  · rintro ⟨all, short⟩ protocol listed
    rcases loop.2 with ⟨-, -, keys⟩ | ⟨index, -, stuck, -⟩
    · refine (keys protocol).mpr (.inr (List.mem_map.mpr ⟨protocol, listed, ?_⟩))
      exact snprintf_eq (short protocol listed)
    · exact absurd (all index) stuck

/-- A start returns and leaves what it should exactly when all protocols can be registered, and the
rollback removes as many routes as there are. -/
theorem startSound_iff (env : Env) {bus : HwBus} {plugin : Plugin}
    (idFits : plugin.id.length < 64) (ready : bus.metaproto.initialized = true)
    (fits : bus.metaproto.Fits) : StartSound env bus plugin ↔ StartCounts env bus plugin := by
  have rc := (hwPluginStart_spec env idFits ready fits).rc
  rcases start_cases env bus plugin with succeeds | ⟨added, removed, rolls⟩ | idle
  · have keys := succeeds_keys_iff succeeds idFits ready fits
    have begins : Begins env bus plugin := ⟨succeeds.startable, succeeds.init⟩
    constructor
    · intro sound
      obtain ⟨all, short⟩ := keys.mp (sound.1 (rc.mpr succeeds))
      exact ⟨fun _ => all, fun _ => short,
        fun added removed rolls => absurd rolls (succeeds.notUndone added removed),
        fun refused => absurd begins refused⟩
    · intro counts
      exact ⟨fun _ => keys.mpr ⟨counts.all succeeds, counts.fits succeeds⟩,
        fun failed => absurd (rc.mpr succeeds) failed⟩
  · have fails : ¬ Succeeds env bus plugin :=
      fun succeeds => succeeds.notUndone added removed rolls
    have failed : (hwPluginStart env bus plugin).2 ≠ hwrunOk := mt rc.mp fails
    have keys := undone_keys_iff rolls idFits ready fits
    constructor
    · intro sound
      refine ⟨fun succeeds => absurd succeeds fails, fun succeeds => absurd succeeds fails, ?_,
        fun refused => absurd rolls.begins refused⟩
      intro others gone again
      obtain ⟨rfl, rfl⟩ := rolls.unique again
      exact keys.mp (sound.2 failed).1
    · intro counts
      exact ⟨fun done => absurd done failed,
        fun _ => ⟨keys.mpr (counts.undone added removed rolls), failed_state failed⟩⟩
  · have fails : ¬ Succeeds env bus plugin :=
      fun succeeds => idle ⟨succeeds.startable, succeeds.init⟩
    have failed : (hwPluginStart env bus plugin).2 ≠ hwrunOk := mt rc.mp fails
    have same := hwPluginStart_refused_metaproto idle
    constructor
    · intro sound
      refine ⟨fun succeeds => absurd succeeds fails, fun succeeds => absurd succeeds fails,
        fun added removed rolls => absurd rolls.begins idle, fun _ => ?_⟩
      rw [← same]
      exact (sound.2 failed).1
    · intro counts
      refine ⟨fun done => absurd done failed, fun _ => ⟨?_, failed_state failed⟩⟩
      rw [same]
      exact counts.refused idle

/-- Names that fit add one route each, which is removed with them. -/
theorem removesAll_of_short {registry : Registry} {id : CString} {added removed : List CString}
    (fresh : ∀ protocol, (protocol, id) ∉ registry.keys)
    (short : ∀ protocol ∈ added, protocol.length < 64) (removes : added ⊆ removed) :
    RemovesAll registry id added removed := by
  intro protocol
  have uncut : added.countP (cutTo protocol) = 0 := by
    rw [List.countP_eq_zero]
    intro name listed cut
    rw [cutTo_iff, snprintf_eq (short name listed)] at cut
    exact cut.1 cut.2
  rw [addedRoutes, uncut, List.count_eq_zero.mpr (fresh protocol), Nat.zero_add, Nat.zero_add]
  split
  · rename_i first
    exact List.count_pos_iff.mpr (removes (List.mem_of_find?_eq_some first.2))
  · exact Nat.zero_le _

/-- A plugin without routes, with names that fit and a first protocol that can be registered, is
started or rolled back as it should be. -/
theorem StartCounts.of_fresh {env : Env} {bus : HwBus} {plugin : Plugin}
    (fresh : ∀ protocol, (protocol, plugin.id) ∉ bus.metaproto.keys)
    (short : ∀ protocol ∈ entries plugin.provides, protocol.length < 64)
    (first : Storable (env.alloc plugin.id) bus.metaproto plugin 0) :
    StartCounts env bus plugin where
  all succeeds := succeeds.registration.resolve_right (not_not.mpr first)
  fits _ := short
  undone added removed rolls := by
    cases rolls with
    | registration index begins positive stuck earlier =>
      exact removesAll_of_short fresh (fun name listed => short name (List.mem_of_mem_take listed))
        (List.Subset.refl _)
    | start begins fails all => exact removesAll_of_short fresh short (List.Subset.refl _)
    | bare begins fails stuck => exact absurd first stuck
  refused _ := fresh

/-- A plugin that provides a protocol. -/
def hapPlugin : Plugin := installedPlugin (lit "hap") [lit "HAP"] [lit "FSP"]

/-- With memory for its route it is started as it should be. -/
theorem startSound_hap : StartSound willingEnv rivals.bus hapPlugin := by
  have short : ∀ key ∈ rivals.bus.metaproto.keys, key.1.length < 64 := by decide +kernel
  have others : ∀ key ∈ rivals.bus.metaproto.keys, key.2 ≠ hapPlugin.id := by decide +kernel
  refine (startSound_iff willingEnv (by decide) (by decide) short).mpr ?_
  exact .of_fresh (fun protocol listed => others _ listed rfl) (by decide) (fun _ _ => .inl rfl)

/-- Callbacks that succeed, without memory. -/
def exhaustedEnv : Env := { willingEnv with alloc := fun _ _ => false }

/-- Without memory for its only route it is started all the same. -/
theorem startSound_exhausted_not : ¬ StartSound exhaustedEnv rivals.bus hapPlugin := by
  intro sound
  have registered := sound.1 (by decide +kernel) (lit "HAP") (by decide)
  exact absurd registered (by decide +kernel)

end HwrunOs.Bus
