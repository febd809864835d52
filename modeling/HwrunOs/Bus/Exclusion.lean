import HwrunOs.Bus.Core
import HwrunOs.Bus.RouteMap

/-!
# Mutually exclusive capabilities

`hw_plugin_start` refuses a plugin that declares a conflict with a registered protocol. The
other role of a pair is not checked: a plugin that provides a protocol is started although a
started plugin declares a conflict with it. The condition under which conflicting plugins are
never started together is stated on the state before each start.
-/

namespace HwrunOs.Bus

open HwrunOs.Bytes HwrunOs.Runs HwrunOs.Lookup

/-! ## Keys of the registry -/

/-- The keys of the routes in list order. -/
def Registry.keys (registry : Registry) : List RouteKey := registry.routes.map Route.key

/-- A route of a pair is found exactly when the pair is a key. -/
theorem any_isOf {registry : Registry} {protocol pluginId : CString} :
    registry.routes.any (Route.isOf protocol pluginId) = true ↔
      (protocol, pluginId) ∈ registry.keys := by
  rw [Registry.keys, List.any_eq_true, List.mem_map]
  constructor
  · rintro ⟨route, listed, matched⟩
    exact ⟨route, listed, (Route.isOf_iff route).mp matched⟩
  · rintro ⟨route, listed, named⟩
    exact ⟨route, listed, (Route.isOf_iff route).mpr named⟩

/-- Registration of a pair that has a route keeps the keys. -/
theorem register_keys_stored {registry : Registry} (ready : registry.initialized = true)
    {protocol pluginId : CString} (version : Option CString) (implementation : Implementation)
    (alloc : Bool) (stored : (protocol, pluginId) ∈ registry.keys) :
    (hwMetaprotoRegister registry protocol version pluginId implementation alloc).2 = hwrunOk ∧
      (hwMetaprotoRegister registry protocol version pluginId implementation alloc).1.keys =
        registry.keys := by
  rw [hwMetaprotoRegister, if_neg (by simp [ready]), if_pos (any_isOf.mpr stored),
    replaceF_route]
  exact ⟨rfl, map_updateFirst (Route.update_key version implementation) registry.routes⟩

/-- Registration of another pair adds the key of the cut names, if there is memory. -/
theorem register_keys_new {registry : Registry} (ready : registry.initialized = true)
    {protocol pluginId : CString} (version : Option CString) (implementation : Implementation)
    (alloc : Bool) (new : (protocol, pluginId) ∉ registry.keys) :
    (hwMetaprotoRegister registry protocol version pluginId implementation alloc).2 =
        (if alloc then hwrunOk else hwrunEnomem) ∧
      (hwMetaprotoRegister registry protocol version pluginId implementation alloc).1.keys =
        if alloc then (snprintf 64 protocol, snprintf 64 pluginId) :: registry.keys
        else registry.keys := by
  have missed : ¬ registry.routes.any (Route.isOf protocol pluginId) = true := by
    rw [any_isOf]
    exact new
  rw [hwMetaprotoRegister, if_neg (by simp [ready]), if_neg missed]
  cases alloc with
  | true => exact ⟨rfl, rfl⟩
  | false => exact ⟨rfl, rfl⟩

/-- Removal erases a key. -/
theorem unregister_keys (registry : Registry) (protocol pluginId : CString) :
    (hwMetaprotoUnregister registry protocol pluginId).1.keys =
      registry.keys.erase (protocol, pluginId) := by
  unfold hwMetaprotoUnregister
  by_cases stored : registry.routes.any (Route.isOf protocol pluginId) = true
  · rw [if_pos stored]
    show (registry.routes.eraseP (Route.isOf protocol pluginId)).map Route.key = _
    rw [Registry.keys]
    generalize registry.routes = routes
    induction routes with
    | nil => rfl
    | cons route rest ih =>
      by_cases matched : route.isOf protocol pluginId = true
      · have named := (Route.isOf_iff route).mp matched
        rw [List.eraseP_cons_of_pos matched, List.map_cons, named, List.erase_cons_head]
      · have other : route.key ≠ (protocol, pluginId) := by
          rw [Ne, ← Route.isOf_iff]
          exact matched
        rw [List.eraseP_cons_of_neg matched, List.map_cons, List.map_cons,
          List.erase_cons_tail (by simpa using other), ih]
  · rw [if_neg stored, List.erase_of_not_mem]
    rw [← any_isOf]
    exact stored

/-- What the registry keeps for the other plugins while one plugin's routes change: their
keys. -/
def SameOthers (id : CString) (before after : Registry) : Prop :=
  after.initialized = before.initialized ∧
    ∀ protocol other, other ≠ id →
      ((protocol, other) ∈ after.keys ↔ (protocol, other) ∈ before.keys)

/-- An unchanged registry keeps the keys of the other plugins. -/
theorem SameOthers.refl (id : CString) (registry : Registry) : SameOthers id registry registry :=
  ⟨rfl, fun _ _ _ => Iff.rfl⟩

/-- Two changes under one id keep the keys of the other plugins. -/
theorem SameOthers.trans {id : CString} {first second third : Registry}
    (one : SameOthers id first second) (two : SameOthers id second third) :
    SameOthers id first third :=
  ⟨two.1.trans one.1, fun protocol other different =>
    (two.2 protocol other different).trans (one.2 protocol other different)⟩

/-- Registration under an id that fits keeps the keys of the other plugins. -/
theorem register_others {registry : Registry} (ready : registry.initialized = true)
    (protocol : CString) {pluginId : CString} (idFits : pluginId.length < 64)
    (version : Option CString) (implementation : Implementation) (alloc : Bool) :
    SameOthers pluginId registry
      (hwMetaprotoRegister registry protocol version pluginId implementation alloc).1 := by
  refine ⟨hwMetaprotoRegister_initialized, ?_⟩
  intro other id different
  by_cases stored : (protocol, pluginId) ∈ registry.keys
  · rw [(register_keys_stored ready version implementation alloc stored).2]
  · rw [(register_keys_new ready version implementation alloc stored).2, snprintf_eq idFits]
    cases alloc with
    | true =>
      rw [if_pos rfl, List.mem_cons, Prod.mk.injEq]
      simp [different]
    | false => rfl

/-- Removal under an id keeps the keys of the other plugins. -/
theorem unregister_others (registry : Registry) (protocol pluginId : CString) :
    SameOthers pluginId registry (hwMetaprotoUnregister registry protocol pluginId).1 := by
  constructor
  · unfold hwMetaprotoUnregister
    split <;> rfl
  · intro other id different
    rw [unregister_keys]
    apply List.mem_erase_of_ne
    rw [Ne, Prod.mk.injEq]
    exact fun same => different same.2

/-- The rollback and the stop of a plugin keep the keys of the other plugins. -/
theorem unregisterProvides_others (registry : Registry) (plugin : Plugin) (count : Nat) :
    SameOthers plugin.id registry (pluginUnregisterProvides registry plugin count) := by
  unfold pluginUnregisterProvides
  generalize (entries plugin.provides).take count = protocols
  induction protocols generalizing registry with
  | nil => exact .refl plugin.id registry
  | cons protocol rest ih =>
    rw [List.foldl_cons]
    exact (unregister_others registry protocol plugin.id).trans (ih _)

/-- The registration loop keeps the keys of the other plugins. -/
theorem registerProvides_others {alloc : Nat → Bool} {plugin : Plugin}
    (idFits : plugin.id.length < 64) (done : Nat) (protocols : List CString)
    {registry : Registry} (ready : registry.initialized = true) :
    SameOthers plugin.id registry
      (registerProvidesFrom alloc plugin done protocols registry).1 := by
  induction protocols generalizing done registry with
  | nil => exact .refl plugin.id registry
  | cons protocol rest ih =>
    have first := register_others ready protocol idFits (some hwrunProtocolVersion)
      (providedImplementation plugin protocol) (alloc done)
    rw [registerProvidesFrom]
    dsimp only
    split
    · exact first
    · exact first.trans (ih (done + 1) (first.1.trans ready))

/-! ## The registration loop -/

/-- Every key's protocol fits its field. -/
def Registry.Fits (registry : Registry) : Prop := ∀ key ∈ registry.keys, key.1.length < 64

/-- A registration stores its protocol within the field. -/
theorem Registry.Fits.register {registry : Registry} (fits : registry.Fits)
    (ready : registry.initialized = true) {protocol pluginId : CString} {version : Option CString}
    {implementation : Implementation} {alloc : Bool} :
    (hwMetaprotoRegister registry protocol version pluginId implementation alloc).1.Fits := by
  intro key listed
  by_cases stored : (protocol, pluginId) ∈ registry.keys
  · rw [(register_keys_stored ready version implementation alloc stored).2] at listed
    exact fits key listed
  · rw [(register_keys_new ready version implementation alloc stored).2] at listed
    split at listed
    · rcases List.mem_cons.mp listed with rfl | old
      · exact snprintf_length protocol (by decide)
      · exact fits key old
    · exact fits key listed

/-- One turn of the registration loop. -/
inductive RegisterTurn (alloc : Nat → Bool) (plugin : Plugin) (done : Nat) (protocol : CString)
    (rest : List CString) (registry : Registry) : Prop where
  /-- The route is there and is updated. -/
  | known (stored : (protocol, plugin.id) ∈ registry.keys) (after : Registry)
      (goesOn : registerProvidesFrom alloc plugin done (protocol :: rest) registry =
        registerProvidesFrom alloc plugin (done + 1) rest after)
      (ready : after.initialized = true) (fits : after.Fits) (keys : after.keys = registry.keys)
  /-- A new route gets the cut name. -/
  | added (new : (protocol, plugin.id) ∉ registry.keys) (memory : alloc done = true)
      (after : Registry)
      (goesOn : registerProvidesFrom alloc plugin done (protocol :: rest) registry =
        registerProvidesFrom alloc plugin (done + 1) rest after)
      (ready : after.initialized = true) (fits : after.Fits)
      (keys : after.keys = (snprintf 64 protocol, plugin.id) :: registry.keys)
  /-- Without memory for a new route the loop ends. -/
  | ended (new : (protocol, plugin.id) ∉ registry.keys) (memory : alloc done = false)
      (ends : registerProvidesFrom alloc plugin done (protocol :: rest) registry =
        (registry, -(done : Int)))

/-- What a turn of the registration loop does. -/
theorem registerProvides_turn (alloc : Nat → Bool) {plugin : Plugin}
    (idFits : plugin.id.length < 64) (done : Nat) (protocol : CString) (rest : List CString)
    {registry : Registry} (ready : registry.initialized = true) (fits : registry.Fits) :
    RegisterTurn alloc plugin done protocol rest registry := by
  have unfolded : registerProvidesFrom alloc plugin done (protocol :: rest) registry =
      if (hwMetaprotoRegister registry protocol (some hwrunProtocolVersion) plugin.id
          (providedImplementation plugin protocol) (alloc done)).2 ≠ hwrunOk then
        ((hwMetaprotoRegister registry protocol (some hwrunProtocolVersion) plugin.id
          (providedImplementation plugin protocol) (alloc done)).1, -(done : Int))
      else registerProvidesFrom alloc plugin (done + 1) rest
        (hwMetaprotoRegister registry protocol (some hwrunProtocolVersion) plugin.id
          (providedImplementation plugin protocol) (alloc done)).1 := rfl
  by_cases stored : (protocol, plugin.id) ∈ registry.keys
  · obtain ⟨rc, keys⟩ := register_keys_stored ready (some hwrunProtocolVersion)
      (providedImplementation plugin protocol) (alloc done) stored
    rw [if_neg (not_not.mpr rc)] at unfolded
    exact .known stored _ unfolded (hwMetaprotoRegister_initialized.trans ready)
      (fits.register ready) keys
  · obtain ⟨rc, keys⟩ := register_keys_new ready (some hwrunProtocolVersion)
      (providedImplementation plugin protocol) (alloc done) stored
    cases memory : alloc done with
    | true =>
      rw [memory] at rc keys unfolded
      rw [if_pos rfl] at rc
      rw [if_pos rfl, snprintf_eq idFits] at keys
      rw [if_neg (not_not.mpr rc)] at unfolded
      exact .added stored memory _ unfolded (hwMetaprotoRegister_initialized.trans ready)
        (fits.register ready) keys
    | false =>
      have missed : ¬ registry.routes.any (Route.isOf protocol plugin.id) = true := by
        rw [any_isOf]
        exact stored
      refine .ended stored memory ?_
      rw [memory] at rc unfolded
      rw [unfolded, if_pos (by rw [rc]; decide), hwMetaprotoRegister, if_neg (by simp [ready]),
        if_neg missed]
      rfl

/-- A provided protocol can be registered in its turn: there is memory, or its pair has a route
already or gets one from a protocol before it. -/
def Storable (alloc : Nat → Bool) (registry : Registry) (plugin : Plugin) (index : Nat) : Prop :=
  ∀ protocol, (entries plugin.provides)[index]? = some protocol →
    alloc index = true ∨ (protocol, plugin.id) ∈ registry.keys ∨
      protocol ∈ ((entries plugin.provides).take index).map (snprintf 64)

/-- How the registration loop can end from a position on: everything is registered, or the
first protocol that cannot be registered ends it with the negated number of those before. -/
def LoopEnds (alloc : Nat → Bool) (registry : Registry) (plugin : Plugin) (first : Nat)
    (reached : Registry) (after : Registry × Int) : Prop :=
  ((∀ index ≥ first, Storable alloc registry plugin index) ∧
      after.2 = ((entries plugin.provides).length : Int) ∧
      ∀ protocol, (protocol, plugin.id) ∈ after.1.keys ↔
        (protocol, plugin.id) ∈ registry.keys ∨
          protocol ∈ (entries plugin.provides).map (snprintf 64)) ∨
    ∃ index ≥ first, ¬ Storable alloc registry plugin index ∧
      (∀ earlier ≥ first, earlier < index → Storable alloc registry plugin earlier) ∧
      after.2 = -(index : Int) ∧ (index = first → after.1 = reached)

/-- A position whose protocol can be registered is passed. -/
theorem LoopEnds.pass {alloc : Nat → Bool} {registry : Registry} {plugin : Plugin} {first : Nat}
    {left reached : Registry} {after : Registry × Int}
    (storable : Storable alloc registry plugin first)
    (later : LoopEnds alloc registry plugin (first + 1) left after) :
    LoopEnds alloc registry plugin first reached after := by
  have from_ (property : Nat → Prop) (here : property first)
      (rest : ∀ index ≥ first + 1, property index) : ∀ index ≥ first, property index := by
    intro index past
    by_cases same : index = first
    · rw [same]
      exact here
    · exact rest index (by omega)
  rcases later with ⟨all, count, keys⟩ | ⟨index, past, stuck, earlier, count, -⟩
  · exact .inl ⟨from_ _ storable all, count, keys⟩
  · refine .inr ⟨index, by omega, stuck, ?_, count, fun same => by omega⟩
    apply from_
    · exact fun _ => storable
    · exact earlier

/-- The registration loop goes through the provided protocols in order. -/
theorem registerProvidesFrom_ends {alloc : Nat → Bool} {plugin : Plugin}
    (idFits : plugin.id.length < 64) {registry : Registry} (front rest : List CString)
    (whole : entries plugin.provides = front ++ rest) {reached : Registry}
    (ready : reached.initialized = true) (fits : reached.Fits)
    (keys : ∀ protocol, (protocol, plugin.id) ∈ reached.keys ↔
      (protocol, plugin.id) ∈ registry.keys ∨ protocol ∈ front.map (snprintf 64)) :
    (registerProvidesFrom alloc plugin front.length rest reached).1.Fits ∧
      LoopEnds alloc registry plugin front.length reached
        (registerProvidesFrom alloc plugin front.length rest reached) := by
  induction rest generalizing front reached with
  | nil =>
    rw [List.append_nil] at whole
    refine ⟨fits, .inl ⟨?_, ?_, ?_⟩⟩
    · intro index past protocol found
      rw [whole, List.getElem?_eq_none past] at found
      cases found
    · rw [whole]
      rfl
    · rw [whole]
      exact keys
  | cons protocol rest ih =>
    have here : (entries plugin.provides)[front.length]? = some protocol := by
      rw [whole, List.getElem?_append_right (Nat.le_refl _), Nat.sub_self,
        List.getElem?_cons_zero]
    have before : (entries plugin.provides).take front.length = front := by
      rw [whole, List.take_left]
    have next : entries plugin.provides = (front ++ [protocol]) ++ rest := by
      rw [whole, List.append_assoc, List.singleton_append]
    have longer : (front ++ [protocol]).length = front.length + 1 := by
      rw [List.length_append, List.length_singleton]
    cases registerProvides_turn alloc idFits front.length protocol rest ready fits with
    | known stored after goesOn afterReady afterFits same =>
      -- The route is updated; its protocol fits, so it is not cut.
      have uncut : snprintf 64 protocol = protocol := snprintf_eq (fits _ stored)
      have storable : Storable alloc registry plugin front.length := by
        intro other found
        rw [here] at found
        obtain rfl := Option.some.inj found
        rw [before]
        exact .inr ((keys protocol).mp stored)
      have later := ih (front ++ [protocol]) next afterReady afterFits (by
        intro other
        rw [same, keys, List.map_append, List.mem_append, List.map_singleton,
          List.mem_singleton, uncut]
        constructor
        · exact fun old => old.imp_right .inl
        · rintro (old | old | rfl)
          · exact .inl old
          · exact .inr old
          · exact (keys other).mp stored)
      rw [longer] at later
      rw [goesOn]
      exact ⟨later.1, later.2.pass storable⟩
    | added new memory after goesOn afterReady afterFits same =>
      have storable : Storable alloc registry plugin front.length := fun _ _ => .inl memory
      have later := ih (front ++ [protocol]) next afterReady afterFits (by
        intro other
        rw [same, List.mem_cons, keys, Prod.mk.injEq, List.map_append, List.mem_append,
          List.map_singleton, List.mem_singleton]
        tauto)
      rw [longer] at later
      rw [goesOn]
      exact ⟨later.1, later.2.pass storable⟩
    | ended new memory ends =>
      have stuck : ¬ Storable alloc registry plugin front.length := by
        intro storable
        have found := storable protocol here
        rw [before, ← keys protocol, memory] at found
        rcases found with impossible | listed
        · cases impossible
        · exact new listed
      rw [ends]
      exact ⟨fits, .inr ⟨front.length, Nat.le_refl _, stuck,
        fun earlier past less => by omega, rfl, fun _ => rfl⟩⟩

/-! ## Which starts succeed -/

/-- The registration of a plugin is not rolled back: all its protocols can be registered, or the
first one cannot, which `hw_plugin_start` takes for a success. -/
def RegistrationHolds (alloc : Nat → Bool) (registry : Registry) (plugin : Plugin) : Prop :=
  (∀ index, Storable alloc registry plugin index) ∨ ¬ Storable alloc registry plugin 0

/-- A start goes through: the checks pass, the callbacks succeed, the registration holds. -/
structure Succeeds (env : Env) (bus : HwBus) (plugin : Plugin) : Prop where
  /-- The dependency and the conflict check pass. -/
  startable : Startable bus.metaproto plugin
  /-- `init` succeeds. -/
  init : plugin.ops.init.isSome → env.initRc plugin.id = hwrunOk
  /-- `start` succeeds. -/
  start : plugin.ops.start.isSome → env.startRc plugin.id = hwrunOk
  /-- The registration is not rolled back. -/
  registration : RegistrationHolds (env.alloc plugin.id) bus.metaproto plugin

/-- The registration of a plugin from the first protocol on. -/
theorem pluginRegisterProvides_ends {alloc : Nat → Bool} {plugin : Plugin}
    (idFits : plugin.id.length < 64) {registry : Registry} (ready : registry.initialized = true)
    (fits : registry.Fits) : (pluginRegisterProvides alloc registry plugin).1.Fits ∧
      LoopEnds alloc registry plugin 0 registry (pluginRegisterProvides alloc registry plugin) :=
  registerProvidesFrom_ends idFits [] (entries plugin.provides) rfl ready fits (by simp)

/-- The count of `plugin_register_provides` is negative exactly when the registration does not
hold. -/
theorem pluginRegisterProvides_neg {alloc : Nat → Bool} {plugin : Plugin}
    (idFits : plugin.id.length < 64) {registry : Registry} (ready : registry.initialized = true)
    (fits : registry.Fits) : (pluginRegisterProvides alloc registry plugin).2 < 0 ↔
      ¬ RegistrationHolds alloc registry plugin := by
  unfold RegistrationHolds
  rcases (pluginRegisterProvides_ends idFits ready fits).2 with
    ⟨all, count, -⟩ | ⟨index, -, stuck, earlier, count, -⟩
  · have holds : ∀ index, Storable alloc registry plugin index :=
      fun index => all index (Nat.zero_le index)
    constructor
    · intro negative
      omega
    · intro fails
      exact absurd (.inl holds) fails
  · have incomplete : ¬ ∀ index, Storable alloc registry plugin index :=
      fun all => stuck (all index)
    constructor
    · intro negative holds
      have positive : 0 < index := by omega
      exact (holds.resolve_left incomplete) (earlier 0 (Nat.zero_le 0) positive)
    · intro fails
      have positive : index ≠ 0 := by
        rintro rfl
        exact fails (.inr stuck)
      omega

/-- The `init` callback succeeds or is absent. -/
theorem callInit_ok {env : Env} {bus : HwBus} {plugin : Plugin} :
    (callInit env bus plugin).2 = hwrunOk ↔
      (plugin.ops.init.isSome → env.initRc plugin.id = hwrunOk) := by
  unfold callInit
  split
  · simp [*]
  · simp [*]

/-- The `start` callback succeeds or is absent. -/
theorem callStart_ok {env : Env} {bus : HwBus} {plugin : Plugin} :
    (callStart env bus plugin).2 = hwrunOk ↔
      (plugin.ops.start.isSome → env.startRc plugin.id = hwrunOk) := by
  unfold callStart
  split
  · simp [*]
  · simp [*]

/-- Removal keeps the keys' protocols within their fields. -/
theorem unregisterProvides_fits {registry : Registry} (fits : registry.Fits) (plugin : Plugin)
    (count : Nat) : (pluginUnregisterProvides registry plugin count).Fits := by
  unfold pluginUnregisterProvides
  generalize (entries plugin.provides).take count = protocols
  induction protocols generalizing registry with
  | nil => exact fits
  | cons protocol rest ih =>
    rw [List.foldl_cons]
    apply ih
    intro key listed
    rw [unregister_keys] at listed
    exact fits key (List.mem_of_mem_erase listed)

/-- What a start of a plugin promises about its result and the registry after it. -/
structure StartSpec (env : Env) (bus : HwBus) (plugin : Plugin) (after : HwBus × Int) : Prop where
  /-- Success is returned exactly when the start goes through. -/
  rc : after.2 = hwrunOk ↔ Succeeds env bus plugin
  /-- A start that goes through leaves the registry of the registration loop. -/
  registered : Succeeds env bus plugin → after.1.metaproto =
    (pluginRegisterProvides (env.alloc plugin.id) bus.metaproto plugin).1
  /-- The keys of the other plugins are kept. -/
  others : SameOthers plugin.id bus.metaproto after.1.metaproto
  /-- The keys' protocols stay within their fields. -/
  fits : after.1.metaproto.Fits

/-- A start that fails, with a registry that keeps the keys of the other plugins. -/
theorem StartSpec.failed {env : Env} {bus : HwBus} {plugin : Plugin} {after : HwBus × Int}
    (rc : after.2 ≠ hwrunOk) (fails : ¬ Succeeds env bus plugin)
    (others : SameOthers plugin.id bus.metaproto after.1.metaproto)
    (fits : after.1.metaproto.Fits) : StartSpec env bus plugin after where
  rc := ⟨fun done => absurd done rc, fun succeeds => absurd succeeds fails⟩
  registered := fun succeeds => absurd succeeds fails
  others := others
  fits := fits

/-- After `init` succeeded, the rest of the start keeps its promises. -/
theorem finishStart_spec (env : Env) {bus middle : HwBus} {plugin : Plugin}
    (idFits : plugin.id.length < 64) (ready : bus.metaproto.initialized = true)
    (fits : bus.metaproto.Fits) (same : middle.metaproto = bus.metaproto)
    (passed : Startable bus.metaproto plugin)
    (init : plugin.ops.init.isSome → env.initRc plugin.id = hwrunOk) :
    StartSpec env bus plugin (finishStart env middle plugin) := by
  have negative : (pluginRegisterProvides (env.alloc plugin.id) bus.metaproto plugin).2 < 0 ↔
      ¬ RegistrationHolds (env.alloc plugin.id) bus.metaproto plugin :=
    pluginRegisterProvides_neg idFits ready fits
  have loopFits : (pluginRegisterProvides (env.alloc plugin.id) bus.metaproto plugin).1.Fits :=
    (pluginRegisterProvides_ends idFits ready fits).1
  have loop : SameOthers plugin.id bus.metaproto
      (pluginRegisterProvides (env.alloc plugin.id) bus.metaproto plugin).1 :=
    registerProvides_others idFits 0 (entries plugin.provides) ready
  have undone (count : Nat) := loop.trans (unregisterProvides_others _ plugin count)
  simp only [finishStart, setState_metaproto, same]
  by_cases rolledBack :
      (pluginRegisterProvides (env.alloc plugin.id) bus.metaproto plugin).2 < 0
  · rw [if_pos rolledBack]
    apply StartSpec.failed
    · show hwrunEconflict ≠ hwrunOk
      decide
    · exact fun succeeds => negative.mp rolledBack succeeds.registration
    · exact undone _
    · exact unregisterProvides_fits loopFits plugin _
  · rw [if_neg rolledBack]
    have holds : RegistrationHolds (env.alloc plugin.id) bus.metaproto plugin :=
      not_not.mp (mt negative.mpr rolledBack)
    generalize whole : HwBus.mk _ _ _ _ = registered
    have left : registered.metaproto =
        (pluginRegisterProvides (env.alloc plugin.id) bus.metaproto plugin).1 := by
      rw [← whole]
    have kept : (callStart env registered plugin).1.metaproto = registered.metaproto :=
      callStart_metaproto env registered plugin
    by_cases start : (callStart env registered plugin).2 = hwrunOk
    · rw [if_neg (not_not.mpr start)]
      have succeeds : Succeeds env bus plugin :=
        ⟨passed, init, callStart_ok.mp start, holds⟩
      refine ⟨iff_of_true rfl succeeds, fun _ => ?_, ?_, ?_⟩
      · rw [setState_metaproto, kept, left]
      · rw [setState_metaproto, kept, left]
        exact loop
      · rw [setState_metaproto, kept, left]
        exact loopFits
    · rw [if_pos start]
      apply StartSpec.failed
      · exact start
      · exact fun succeeds => start (callStart_ok.mpr succeeds.start)
      · rw [setState_metaproto, kept, left]
        exact undone _
      · rw [setState_metaproto, kept, left]
        exact unregisterProvides_fits loopFits plugin _

/-- `hw_plugin_start` keeps its promises. -/
theorem hwPluginStart_spec (env : Env) {bus : HwBus} {plugin : Plugin}
    (idFits : plugin.id.length < 64) (ready : bus.metaproto.initialized = true)
    (fits : bus.metaproto.Fits) : StartSpec env bus plugin (hwPluginStart env bus plugin) := by
  have same := SameOthers.refl plugin.id bus.metaproto
  have reached : (callInit env (hwPluginInjectRuntime bus plugin) plugin).1.metaproto =
      bus.metaproto := by
    rw [callInit_metaproto, inject_metaproto]
  by_cases passed : Startable bus.metaproto plugin
  · rw [hwPluginStart_passed passed]
    by_cases init : (callInit env (hwPluginInjectRuntime bus plugin) plugin).2 = hwrunOk
    · rw [if_neg (not_not.mpr init)]
      exact finishStart_spec env idFits ready fits reached passed (callInit_ok.mp init)
    · rw [if_pos init]
      apply StartSpec.failed
      · exact init
      · exact fun succeeds => init (callInit_ok.mpr succeeds.init)
      · rw [setState_metaproto, reached]
        exact same
      · rw [setState_metaproto, reached]
        exact fits
  · obtain ⟨state, rc⟩ := hwPluginStart_refused env passed
    apply StartSpec.failed rc
    · exact fun succeeds => passed succeeds.startable
    · rw [state]
      exact same
    · rw [state]
      exact fits

/-! ## Mutual exclusion -/

/-- A plugin currently provides a protocol: it is started, declares the protocol, and the
registry has the route that its registration makes. -/
def Provides (registry : Registry) (plugin : Plugin) (protocol : CString) : Prop :=
  plugin.state = .started ∧ protocol ∈ entries plugin.provides ∧
    (snprintf 64 protocol, plugin.id) ∈ registry.keys

/-- No started plugin declares a conflict with a protocol that another one provides. -/
def Exclusive (bus : HwBus) : Prop :=
  ∀ plugin ∈ bus.plugins.nodes, plugin.state = .started →
    ∀ other ∈ bus.plugins.nodes, other.id ≠ plugin.id →
      ∀ protocol ∈ entries plugin.conflicts, ¬ Provides bus.metaproto other protocol

instance (registry : Registry) (plugin : Plugin) (protocol : CString) :
    Decidable (Provides registry plugin protocol) :=
  inferInstanceAs (Decidable (_ ∧ _ ∧ _))

instance (bus : HwBus) : Decidable (Exclusive bus) :=
  inferInstanceAs (Decidable (∀ plugin ∈ bus.plugins.nodes, plugin.state = .started →
    ∀ other ∈ bus.plugins.nodes, other.id ≠ plugin.id →
      ∀ protocol ∈ entries plugin.conflicts, ¬ Provides bus.metaproto other protocol))

/-- A plugin whose start goes through provides a protocol afterwards: it declares the protocol,
and the registration reaches it or its route was left behind. -/
def WillProvide (env : Env) (bus : HwBus) (plugin : Plugin) (protocol : CString) : Prop :=
  protocol ∈ entries plugin.provides ∧
    ((∀ index, Storable (env.alloc plugin.id) bus.metaproto plugin index) ∨
      (snprintf 64 protocol, plugin.id) ∈ bus.metaproto.keys)

/-- Starting a plugin brings no conflict about, in either role: no started plugin declares a
conflict with what it will provide, and none provides what it declares a conflict with. -/
def NoConflict (env : Env) (bus : HwBus) (plugin : Plugin) : Prop :=
  ∀ other ∈ bus.plugins.nodes, other.state = .started →
    (∀ protocol ∈ entries other.conflicts, ¬ WillProvide env bus plugin protocol) ∧
    ∀ protocol ∈ entries plugin.conflicts, ¬ Provides bus.metaproto other protocol

/-- A start that goes through brings no conflict about. -/
def StartsExclusively (bus : HwBus) : PluginAction → Prop
  | .load id env => ∀ plugin, bus.plugins.find id = some plugin → plugin.state ≠ .started →
    Succeeds env bus plugin → NoConflict env bus plugin
  | .stop _ => True
  | .unload _ => True

/-- A set of plugins none of which is started; an id is an array of 64 bytes. -/
structure PluginSet where
  /-- The plugins. -/
  table : PluginTable
  /-- Every id fits its field. -/
  idFits : ∀ plugin ∈ table.nodes, plugin.id.length < 64
  /-- No plugin is started. -/
  idle : ∀ plugin ∈ table.nodes, plugin.state ≠ .started

/-- An initialised bus with a set of plugins. -/
def PluginSet.bus (plugins : PluginSet) : HwBus := { hwBusInit with plugins := plugins.table }

/-- A bus that can go on: the registry is ready, all names fit, and capabilities exclude each
other. -/
structure Excluding (bus : HwBus) : Prop where
  /-- The registry accepts registrations. -/
  ready : bus.metaproto.initialized = true
  /-- The protocols of the routes fit. -/
  fits : bus.metaproto.Fits
  /-- The ids of the plugins fit. -/
  idFits : ∀ plugin ∈ bus.plugins.nodes, plugin.id.length < 64
  /-- Mutually exclusive capabilities are apart. -/
  exclusive : Exclusive bus

/-- An operation on a plugin that is not started afterwards keeps the others apart. -/
theorem Excluding.quiet {bus after : HwBus} (excluding : Excluding bus) {id : CString}
    (others : SameOthers id bus.metaproto after.metaproto) (fits : after.metaproto.Fits)
    {change : Plugin → Plugin} (table : after.plugins = bus.plugins.modify id change)
    (stopped : ∀ node, (change node).state ≠ .started) : Excluding after := by
  have member : ∀ node ∈ after.plugins.nodes, node.state = .started →
      node ∈ bus.plugins.nodes ∧ node.id ≠ id := by
    intro node listed started
    rw [table] at listed
    obtain ⟨old, found, rfl⟩ := PluginTable.mem_modify.mp listed
    by_cases named : old.id = id
    · rw [if_pos named] at started
      exact absurd started (stopped old)
    · rw [if_neg named]
      exact ⟨found, named⟩
  refine ⟨others.1.trans excluding.ready, fits, ?_, ?_⟩
  · intro node listed
    rw [table] at listed
    obtain ⟨old, found, rfl⟩ := PluginTable.mem_modify.mp listed
    have short := excluding.idFits old found
    split
    · exact short
    · exact short
  · intro plugin listed started other present different protocol declared provides
    obtain ⟨was, -⟩ := member plugin listed started
    obtain ⟨otherWas, otherNamed⟩ := member other present provides.1
    refine excluding.exclusive plugin was started other otherWas different protocol declared ?_
    exact ⟨provides.1, provides.2.1, (others.2 _ _ otherNamed).mp provides.2.2⟩

/-- A stop removes the plugin's routes. -/
theorem hwPluginStop_metaproto (bus : HwBus) (plugin : Plugin) :
    (hwPluginStop bus plugin).metaproto =
      pluginUnregisterProvides bus.metaproto plugin (entries plugin.provides).length := by
  unfold hwPluginStop
  split <;> rfl

/-- A stop keeps mutually exclusive capabilities apart. -/
theorem Excluding.stop {bus : HwBus} (excluding : Excluding bus) (plugin : Plugin) :
    Excluding (hwPluginStop bus plugin) := by
  have routes := hwPluginStop_metaproto bus plugin
  have stopped : ∀ node : Plugin, { node with state := PluginState.stopped }.state ≠ .started := by
    intro node same
    cases same
  refine excluding.quiet ?_ ?_ (hwPluginStop_plugins bus plugin) stopped
  · rw [routes]
    exact unregisterProvides_others bus.metaproto plugin _
  · rw [routes]
    exact unregisterProvides_fits excluding.fits plugin _

/-- Unloading keeps mutually exclusive capabilities apart. -/
theorem Excluding.unload {bus : HwBus} (excluding : Excluding bus) (plugin : Plugin) :
    Excluding (hwPluginUnload bus plugin) := by
  have stopped : Excluding (if plugin.state = .started ∨ plugin.state = .loaded then
      hwPluginStop bus plugin else bus) := by
    split
    · exact excluding.stop plugin
    · exact excluding
  unfold hwPluginUnload
  dsimp only
  generalize (if plugin.state = .started ∨ plugin.state = .loaded then
    hwPluginStop bus plugin else bus) = middle at stopped
  have idle : ∀ node : Plugin,
      { node with handle := none, state := PluginState.uninstalled }.state ≠ .started := by
    intro node same
    cases same
  have same : (if plugin.ops.destroy.isSome then middle.log (.destroy plugin.id)
      else middle).metaproto = middle.metaproto := by
    split <;> rfl
  have table : (if plugin.ops.destroy.isSome then middle.log (.destroy plugin.id)
      else middle).plugins = middle.plugins := by
    split <;> rfl
  generalize (if plugin.ops.destroy.isSome then middle.log (.destroy plugin.id)
    else middle) = logged at same table
  have others : SameOthers plugin.id middle.metaproto logged.metaproto := by
    rw [same]
    exact .refl plugin.id middle.metaproto
  have fits : logged.metaproto.Fits := by
    rw [same]
    exact stopped.fits
  have written : (logged.plugins.modify plugin.id fun node =>
      { node with handle := none, state := .uninstalled }) =
      middle.plugins.modify plugin.id fun node =>
        { node with handle := none, state := .uninstalled } := by
    rw [table]
  exact stopped.quiet others fits written idle

/-! ## A start that goes through -/

/-- After a start that goes through, the plugin has the routes it was said to provide. -/
theorem Excluding.provides_start {env : Env} {bus : HwBus} (excluding : Excluding bus)
    {plugin : Plugin} (idFits : plugin.id.length < 64) (succeeds : Succeeds env bus plugin)
    {protocol : CString} (declared : protocol ∈ entries plugin.provides) :
    (snprintf 64 protocol, plugin.id) ∈ (hwPluginStart env bus plugin).1.metaproto.keys ↔
      (∀ index, Storable (env.alloc plugin.id) bus.metaproto plugin index) ∨
        (snprintf 64 protocol, plugin.id) ∈ bus.metaproto.keys := by
  have spec := hwPluginStart_spec env idFits excluding.ready excluding.fits
  have loop : LoopEnds (env.alloc plugin.id) bus.metaproto plugin 0 bus.metaproto
      (pluginRegisterProvides (env.alloc plugin.id) bus.metaproto plugin) :=
    (pluginRegisterProvides_ends idFits excluding.ready excluding.fits).2
  rw [spec.registered succeeds]
  rcases loop with ⟨all, -, keys⟩ | ⟨index, -, stuck, earlier, -, same⟩
  · have every : ∀ index, Storable (env.alloc plugin.id) bus.metaproto plugin index :=
      fun index => all index (Nat.zero_le index)
    rw [keys]
    exact iff_of_true (.inr (List.mem_map_of_mem declared)) (.inl every)
  · have some_ : ¬ ∀ index, Storable (env.alloc plugin.id) bus.metaproto plugin index :=
      fun all => stuck (all index)
    have first := succeeds.registration.resolve_left some_
    have zero : index = 0 := by
      by_contra positive
      exact first (earlier 0 (Nat.zero_le 0) (by omega))
    rw [same zero]
    simp only [some_, false_or]

/-- The nodes after a start that goes through: the plugin, started, and the others as they
were. -/
theorem Excluding.nodes_start {env : Env} {bus : HwBus} (excluding : Excluding bus)
    {plugin : Plugin} (listed : plugin ∈ bus.plugins.nodes) (succeeds : Succeeds env bus plugin)
    {node : Plugin} :
    node ∈ (hwPluginStart env bus plugin).1.plugins.nodes ↔
      node = { plugin with state := .started } ∨
        node ∈ bus.plugins.nodes ∧ node.id ≠ plugin.id := by
  have spec := hwPluginStart_spec env (excluding.idFits plugin listed) excluding.ready
    excluding.fits
  rw [hwPluginStart_plugins, if_pos (spec.rc.mpr succeeds), HwBus.setState,
    PluginTable.mem_modify]
  constructor
  · rintro ⟨old, found, rfl⟩
    by_cases named : old.id = plugin.id
    · rw [if_pos named, PluginTable.eq_of_id found listed named]
      exact .inl rfl
    · rw [if_neg named]
      exact .inr ⟨found, named⟩
  · rintro (rfl | ⟨found, different⟩)
    · exact ⟨plugin, listed, by rw [if_pos rfl]⟩
    · exact ⟨node, found, by rw [if_neg different]⟩

/-- A start that goes through keeps capabilities apart exactly when it brings no conflict
about. -/
theorem Excluding.exclusive_start {env : Env} {bus : HwBus} (excluding : Excluding bus)
    {plugin : Plugin} (listed : plugin ∈ bus.plugins.nodes) (idle : plugin.state ≠ .started)
    (succeeds : Succeeds env bus plugin) :
    Exclusive (hwPluginStart env bus plugin).1 ↔ NoConflict env bus plugin := by
  have idFits := excluding.idFits plugin listed
  have others := (hwPluginStart_spec env idFits excluding.ready excluding.fits).others
  have nodes (node : Plugin) :=
    @Excluding.nodes_start env bus excluding plugin listed succeeds node
  have provides {protocol : CString} (declared : protocol ∈ entries plugin.provides) :=
    @Excluding.provides_start env bus excluding plugin idFits succeeds protocol declared
  have apart {other : Plugin} (present : other ∈ bus.plugins.nodes)
      (started : other.state = .started) : other.id ≠ plugin.id := by
    intro same
    rw [PluginTable.eq_of_id present listed same] at started
    exact idle started
  constructor
  · intro exclusive other present started
    have different := apart present started
    have otherAfter := (nodes other).mpr (.inr ⟨present, different⟩)
    have selfAfter := (nodes { plugin with state := .started }).mpr (.inl rfl)
    constructor
    · intro protocol conflict will
      refine exclusive other otherAfter started _ selfAfter different.symm protocol conflict ?_
      exact ⟨rfl, will.1, (provides will.1).mpr will.2⟩
    · intro protocol conflict given
      refine exclusive _ selfAfter rfl other otherAfter different protocol conflict ?_
      exact ⟨given.1, given.2.1, (others.2 _ _ different).mpr given.2.2⟩
  · intro clear first firstAfter started second secondAfter different protocol conflict given
    rcases (nodes first).mp firstAfter with rfl | ⟨present, named⟩
    · rcases (nodes second).mp secondAfter with rfl | ⟨secondPresent, secondNamed⟩
      · exact different rfl
      · refine (clear second secondPresent given.1).2 protocol conflict ?_
        exact ⟨given.1, given.2.1, (others.2 _ _ secondNamed).mp given.2.2⟩
    · rcases (nodes second).mp secondAfter with rfl | ⟨secondPresent, secondNamed⟩
      · refine (clear first present started).1 protocol conflict ?_
        exact ⟨given.2.1, (provides given.2.1).mp given.2.2⟩
      · refine excluding.exclusive first present started second secondPresent different protocol
          conflict ?_
        exact ⟨given.1, given.2.1, (others.2 _ _ secondNamed).mp given.2.2⟩

/-! ## Runs -/

/-- An operation under the condition keeps mutually exclusive capabilities apart. -/
theorem Excluding.step {bus : HwBus} {action : PluginAction} (excluding : Excluding bus)
    (exclusively : StartsExclusively bus action) : Excluding (pluginStep bus action) := by
  cases action with
  | load id env =>
    simp only [pluginStep, hwBusLoad]
    cases search : bus.plugins.find id with
    | none => exact excluding
    | some plugin =>
      by_cases idle : plugin.state = .started
      · simp only [if_pos idle]
        exact excluding
      · simp only [if_neg idle]
        obtain ⟨listed, -⟩ := PluginTable.find_some search
        have idFits := excluding.idFits plugin listed
        have spec := hwPluginStart_spec env idFits excluding.ready excluding.fits
        by_cases succeeds : Succeeds env bus plugin
        · have clear := exclusively plugin search idle succeeds
          refine ⟨spec.others.1.trans excluding.ready, spec.fits, ?_,
            (excluding.exclusive_start listed idle succeeds).mpr clear⟩
          intro node member
          rcases (excluding.nodes_start listed succeeds).mp member with rfl | ⟨old, -⟩
          · exact idFits
          · exact excluding.idFits node old
        · have table := hwPluginStart_plugins env bus plugin
          rw [if_neg (mt spec.rc.mp succeeds)] at table
          refine excluding.quiet spec.others spec.fits table ?_
          intro node same
          cases same
  | stop id =>
    simp only [pluginStep, hwBusStop]
    split
    · exact excluding
    · exact excluding.stop _
  | unload id =>
    simp only [pluginStep, hwBusUnload]
    split
    · exact excluding
    · exact excluding.unload _

/-- An operation that misses the condition brings two conflicting plugins together. -/
theorem Excluding.step_broken {bus : HwBus} {action : PluginAction} (excluding : Excluding bus)
    (missed : ¬ StartsExclusively bus action) : ¬ Exclusive (pluginStep bus action) := by
  cases action with
  | load id env =>
    simp only [StartsExclusively, not_forall] at missed
    obtain ⟨plugin, search, idle, succeeds, conflict⟩ := missed
    obtain ⟨listed, -⟩ := PluginTable.find_some search
    simp only [pluginStep, hwBusLoad, search, if_neg idle]
    rw [excluding.exclusive_start listed idle succeeds]
    exact conflict
  | stop id => exact absurd trivial missed
  | unload id => exact absurd trivial missed

/-- A bus on which nothing is started can go on. -/
theorem PluginSet.excluding (plugins : PluginSet) : Excluding plugins.bus where
  ready := by
    show hwBusInit.metaproto.initialized = true
    decide
  fits := by
    show hwBusInit.metaproto.Fits
    unfold Registry.Fits
    decide
  idFits := plugins.idFits
  exclusive := fun plugin listed started => absurd started (plugins.idle plugin listed)

/-- Along every run of starts, stops and unloads of a set of plugins, no started plugin declares
a conflict with a protocol that another one provides, exactly when every start that goes through
brings no conflict about. -/
theorem run_exclusive_iff (plugins : PluginSet) (actions : List PluginAction) :
    AllStates pluginStep Exclusive plugins.bus actions ↔
      AllSteps pluginStep StartsExclusively plugins.bus actions :=
  allStates_iff_allSteps (fun _ excluding => excluding.exclusive)
    (fun _ _ excluding exclusively => excluding.step exclusively)
    (fun _ _ excluding _ missed => excluding.step_broken missed) plugins.excluding
    (allSteps_of_forall (fun _ _ => trivial) plugins.bus actions)

/-- A plugin that is installed, with the protocols it provides and declares as conflicts. -/
def installedPlugin (id : CString) (provides conflicts : List CString) : Plugin where
  id := id
  state := .installed
  provides := copyStrArr provides
  requires := some [lit "LOG"]
  conflicts := copyStrArr conflicts
  files := none
  ops := {}
  handle := none
  loadTime := 0
  runtimeBind := none

/-- Two plugins of which the first declares a conflict with what the second provides. -/
def rivals : PluginSet where
  table := ⟨[installedPlugin (lit "hap") [lit "HAP"] [lit "FSP"],
    installedPlugin (lit "fsp") [lit "FSP"] []], by decide +kernel⟩
  idFits := by decide +kernel
  idle := by decide +kernel

/-- Started after the plugin that declares the conflict, the other one joins it. -/
theorem rivals_coexist : ¬ AllStates pluginStep Exclusive rivals.bus
    [.load (lit "hap") willingEnv, .load (lit "fsp") willingEnv] := by
  intro exclusive
  have coexist : ¬ Exclusive (run pluginStep rivals.bus
      [.load (lit "hap") willingEnv, .load (lit "fsp") willingEnv]) := by
    decide +kernel
  exact coexist exclusive.last

/-- In the other order the second start is refused. -/
example : Exclusive (run pluginStep rivals.bus
    [.load (lit "fsp") willingEnv, .load (lit "hap") willingEnv]) := by
  decide +kernel

end HwrunOs.Bus
