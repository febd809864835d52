import HwrunOs.Library.Runs
import HwrunOs.Library.Lookup
import HwrunOs.Bus.Metaproto
import Mathlib.Logic.Function.Basic

/-!
# The registry as a finite map

A registry maps a protocol and a plugin id to its routes. Registration and removal act on this
map at one key, as long as the names registered are shorter than the fields they are stored in:
a longer name is stored cut, under another key than the one it is looked up by.
-/

namespace HwrunOs.Bus

open HwrunOs.Bytes HwrunOs.Runs HwrunOs.Lookup

/-! ## Contents -/

/-- A protocol and a plugin id. -/
abbrev RouteKey := CString × CString

/-- The key of a route. -/
def Route.key (route : Route) : RouteKey := (route.protocol, route.pluginId)

/-- The routes that a registry has under a key. -/
def Registry.contents (registry : Registry) (key : RouteKey) : List Route :=
  registry.routes.filter (Route.isOf key.1 key.2)

/-- `hw_metaproto_init`. -/
def hwMetaprotoInit : Registry := ⟨true, []⟩

/-- An operation that changes the registry. -/
inductive RegistryAction where
  /-- `hw_metaproto_register`. -/
  | register (protocol : CString) (version : Option CString) (pluginId : CString)
      (implementation : Implementation) (alloc : Bool)
  /-- `hw_metaproto_unregister`. -/
  | unregister (protocol pluginId : CString)

/-- The registry after an operation. -/
def registryStep (registry : Registry) : RegistryAction → Registry
  | .register protocol version pluginId implementation alloc =>
    (hwMetaprotoRegister registry protocol version pluginId implementation alloc).1
  | .unregister protocol pluginId => (hwMetaprotoUnregister registry protocol pluginId).1

/-- An operation acts on the registry as on a finite map. A successful registration puts one
route with the implementation under its key, and its protocol is resolved afterwards. A removal
empties its key and succeeds exactly when there was a route. A failed operation changes
nothing. -/
def ActsAsMap (registry : Registry) : RegistryAction → Prop
  | .register protocol version pluginId implementation alloc =>
    let after := hwMetaprotoRegister registry protocol version pluginId implementation alloc
    (after.2 = hwrunOk → (hwMetaprotoResolve after.1 protocol none).isSome ∧
      ∃ route, route.implementation = implementation ∧
        after.1.contents = Function.update registry.contents (protocol, pluginId) [route]) ∧
    (after.2 ≠ hwrunOk → after.1 = registry)
  | .unregister protocol pluginId =>
    let after := hwMetaprotoUnregister registry protocol pluginId
    after.1.contents = Function.update registry.contents (protocol, pluginId) [] ∧
    (after.2 = hwrunOk ↔ registry.contents (protocol, pluginId) ≠ []) ∧
    (after.2 ≠ hwrunOk → after.1 = registry)

/-- A registration that can be stored has names shorter than their fields. -/
def NamesFit : RegistryAction → Prop
  | .register protocol _ pluginId _ alloc =>
    alloc = true → protocol.length < 64 ∧ pluginId.length < 64
  | .unregister _ _ => True

/-- A registry as registrations with fitting names leave it: every name fits its field, and no
key has two routes. -/
structure Registry.Keyed (registry : Registry) : Prop where
  /-- The registry accepts registrations. -/
  ready : registry.initialized = true
  /-- Every name fits its field. -/
  fits : ∀ route ∈ registry.routes, route.protocol.length < 64 ∧ route.pluginId.length < 64
  /-- No key has two routes. -/
  distinct : (registry.routes.map Route.key).Nodup

/-! ## Lookups -/

/-- A route is the one of a pair exactly when the pair is its key. -/
theorem Route.isOf_iff {protocol pluginId : CString} (route : Route) :
    route.isOf protocol pluginId = true ↔ route.key = (protocol, pluginId) := by
  simp [Route.isOf, Route.key]

/-- Routes of one key are no routes of another. -/
theorem Route.isOf_apart {key other : RouteKey} (different : other ≠ key) {route : Route}
    (matched : route.isOf key.1 key.2 = true) : route.isOf other.1 other.2 = false := by
  have named : route.key = key := (Route.isOf_iff route).mp matched
  rw [Bool.eq_false_iff]
  intro again
  exact different (((Route.isOf_iff route).mp again).symm.trans named)

/-- An update keeps the key of a route. -/
@[simp] theorem Route.update_key (version : Option CString) (implementation : Implementation)
    (route : Route) : (route.update version implementation).key = route.key := rfl

/-- Replacing the first route of a pair is updating the first match. -/
theorem replaceF_route (protocol : CString) (version : Option CString) (pluginId : CString)
    (implementation : Implementation) (routes : List Route) :
    (routes.replaceF fun route =>
      if route.isOf protocol pluginId then some (route.update version implementation) else none) =
      updateFirst (Route.isOf protocol pluginId) (Route.update version implementation) routes := by
  induction routes with
  | nil => rfl
  | cons head tail ih =>
    rw [List.replaceF_cons, updateFirst]
    by_cases matched : head.isOf protocol pluginId = true
    · simp [matched]
    · simp [matched, ih]

/-- A key with routes is found by its pair. -/
theorem contents_ne_nil {registry : Registry} {protocol pluginId : CString} :
    registry.contents (protocol, pluginId) ≠ [] ↔
      registry.routes.any (Route.isOf protocol pluginId) = true := by
  rw [Registry.contents, Ne, List.filter_eq_nil_iff, List.any_eq_true]
  simp

/-! ## Registration -/

/-- Registration of a stored pair updates its route. -/
theorem register_stored {registry : Registry} (keyed : registry.Keyed) {protocol : CString}
    (version : Option CString) {pluginId : CString} (implementation : Implementation)
    (alloc : Bool) (stored : registry.routes.any (Route.isOf protocol pluginId) = true) :
    hwMetaprotoRegister registry protocol version pluginId implementation alloc =
      ({ registry with
          routes := updateFirst (Route.isOf protocol pluginId)
            (Route.update version implementation) registry.routes }, hwrunOk) := by
  rw [hwMetaprotoRegister, if_neg (by simp [keyed.ready]), if_pos stored, replaceF_route]

/-- Registration of a new pair puts a new route at the head, if there is memory. -/
theorem register_new {registry : Registry} (keyed : registry.Keyed) {protocol : CString}
    (version : Option CString) {pluginId : CString} (implementation : Implementation)
    (alloc : Bool) (new : ¬ registry.routes.any (Route.isOf protocol pluginId) = true) :
    hwMetaprotoRegister registry protocol version pluginId implementation alloc =
      if alloc then ({ registry with
          routes := newRoute protocol version pluginId implementation :: registry.routes },
        hwrunOk)
      else (registry, hwrunEnomem) := by
  rw [hwMetaprotoRegister, if_neg (by simp [keyed.ready]), if_neg new]

/-- A pair with a name that does not fit is not stored. -/
theorem Registry.Keyed.not_stored {registry : Registry} (keyed : registry.Keyed)
    {protocol pluginId : CString}
    (long : ¬ (protocol.length < 64 ∧ pluginId.length < 64)) :
    ¬ registry.routes.any (Route.isOf protocol pluginId) = true := by
  intro stored
  obtain ⟨route, listed, matched⟩ := List.any_eq_true.mp stored
  have named := (Route.isOf_iff route).mp matched
  have fits := keyed.fits route listed
  rw [Route.key, Prod.mk.injEq] at named
  rw [named.1, named.2] at fits
  exact long fits

/-- The key of a new route with names that fit. -/
theorem newRoute_key {protocol pluginId : CString} (fits : protocol.length < 64)
    (idFits : pluginId.length < 64) (version : Option CString)
    (implementation : Implementation) :
    (newRoute protocol version pluginId implementation).key = (protocol, pluginId) := by
  rw [Route.key, newRoute, snprintf_eq fits, snprintf_eq idFits]

/-- Registration with names that fit acts as on a map. -/
theorem register_acts {registry : Registry} (keyed : registry.Keyed) {protocol : CString}
    {version : Option CString} {pluginId : CString} {implementation : Implementation}
    {alloc : Bool} (fits : NamesFit (.register protocol version pluginId implementation alloc)) :
    ActsAsMap registry (.register protocol version pluginId implementation alloc) := by
  unfold ActsAsMap
  dsimp only
  by_cases stored : registry.routes.any (Route.isOf protocol pluginId) = true
  · rw [register_stored keyed version implementation alloc stored]
    obtain ⟨first, found⟩ : ∃ first, registry.routes.find? (Route.isOf protocol pluginId) =
        some first := by
      rw [← Option.isSome_iff_exists, List.find?_isSome]
      simpa using stored
    have isKey (route : Route) := @Route.isOf_iff protocol pluginId route
    have alone := filter_updateFirst_self isKey (Route.update_key version implementation)
      keyed.distinct found
    constructor
    · intro _
      constructor
      · rw [hwMetaprotoResolve_isSome]
        have member : first.update version implementation ∈
            updateFirst (Route.isOf protocol pluginId) (Route.update version implementation)
              registry.routes := by
          apply List.mem_of_mem_filter
          rw [alone]
          exact List.mem_singleton_self _
        have named : first.protocol = protocol := by
          have key := (Route.isOf_iff first).mp (List.find?_some found)
          exact congrArg Prod.fst key
        rw [Registry.registered, List.any_eq_true]
        exact ⟨_, member, beq_iff_eq.mpr named⟩
      · refine ⟨first.update version implementation, rfl, ?_⟩
        funext key
        by_cases same : key = (protocol, pluginId)
        · rw [same, Function.update_self]
          exact alone
        · rw [Function.update_of_ne same]
          apply filter_updateFirst
          intro route matched
          have apart := @Route.isOf_apart (protocol, pluginId) key same route matched
          exact ⟨apart, apart⟩
    · intro failed
      exact absurd rfl failed
  · rw [register_new keyed version implementation alloc stored]
    cases alloc with
    | false =>
      have failed : hwrunEnomem ≠ hwrunOk := by decide
      exact ⟨fun done => absurd done failed, fun _ => rfl⟩
    | true =>
      obtain ⟨short, idShort⟩ := fits rfl
      have named := newRoute_key short idShort version implementation
      constructor
      · intro _
        constructor
        · rw [hwMetaprotoResolve_isSome]
          have cut : snprintf 64 protocol = protocol := snprintf_eq short
          simp [Registry.registered, newRoute, cut]
        · refine ⟨newRoute protocol version pluginId implementation, rfl, ?_⟩
          funext key
          by_cases same : key = (protocol, pluginId)
          · have none : registry.contents (protocol, pluginId) = [] := by
              by_contra filled
              exact stored (contents_ne_nil.mp filled)
            rw [same, Function.update_self]
            show List.filter _ (_ :: _) = _
            rw [List.filter_cons_of_pos ((Route.isOf_iff _).mpr named)]
            exact congrArg _ none
          · rw [Function.update_of_ne same]
            show List.filter _ (_ :: _) = _
            rw [List.filter_cons_of_neg]
            · rfl
            · rw [Route.isOf_iff, named]
              exact fun other => same other.symm
      · intro failed
        exact absurd rfl failed

/-- Registration of a name that does not fit succeeds without a route under its key. -/
theorem register_long {registry : Registry} (keyed : registry.Keyed) {protocol : CString}
    {version : Option CString} {pluginId : CString} {implementation : Implementation}
    {alloc : Bool} (long : ¬ NamesFit (.register protocol version pluginId implementation alloc)) :
    ¬ ActsAsMap registry (.register protocol version pluginId implementation alloc) := by
  simp only [NamesFit, Classical.not_imp] at long
  obtain ⟨rfl, long⟩ := long
  have new := keyed.not_stored long
  intro acts
  unfold ActsAsMap at acts
  dsimp only at acts
  rw [register_new keyed version implementation true new] at acts
  obtain ⟨-, route, -, contents⟩ := acts.1 rfl
  -- The key has no route before, and the cut name of the new route is not the name.
  have before : registry.contents (protocol, pluginId) = [] := by
    by_contra filled
    exact new (contents_ne_nil.mp filled)
  have other : ¬ (newRoute protocol version pluginId implementation).isOf protocol pluginId =
      true := by
    rw [Route.isOf_iff, Route.key, Prod.mk.injEq]
    rintro ⟨first, second⟩
    refine long ⟨?_, ?_⟩
    · rw [← first]
      exact snprintf_length _ (by decide)
    · rw [← second]
      exact snprintf_length _ (by decide)
  have after := congrFun contents (protocol, pluginId)
  rw [Function.update_self] at after
  have empty : List.filter (Route.isOf protocol pluginId)
      (newRoute protocol version pluginId implementation :: registry.routes) = [] := by
    rw [List.filter_cons_of_neg other]
    exact before
  have absurd_ := empty.symm.trans after
  cases absurd_

/-- Registration with names that fit keeps the keys unique. -/
theorem register_keyed {registry : Registry} (keyed : registry.Keyed) {protocol : CString}
    {version : Option CString} {pluginId : CString} {implementation : Implementation}
    {alloc : Bool} (fits : NamesFit (.register protocol version pluginId implementation alloc)) :
    (registryStep registry (.register protocol version pluginId implementation alloc)).Keyed := by
  unfold registryStep
  dsimp only
  by_cases stored : registry.routes.any (Route.isOf protocol pluginId) = true
  · rw [register_stored keyed version implementation alloc stored]
    refine ⟨keyed.ready, ?_, ?_⟩
    · intro route listed
      rcases mem_updateFirst listed with old | ⟨first, found, rfl⟩
      · exact keyed.fits route old
      · exact keyed.fits first (List.mem_of_find?_eq_some found)
    · rw [map_updateFirst (Route.update_key version implementation)]
      exact keyed.distinct
  · rw [register_new keyed version implementation alloc stored]
    cases alloc with
    | false => exact keyed
    | true =>
      obtain ⟨short, idShort⟩ := fits rfl
      have named := newRoute_key short idShort version implementation
      refine ⟨keyed.ready, ?_, ?_⟩
      · intro route listed
        rcases List.mem_cons.mp listed with rfl | old
        · rw [newRoute, snprintf_eq short, snprintf_eq idShort]
          exact ⟨short, idShort⟩
        · exact keyed.fits route old
      · show ((_ :: _).map Route.key).Nodup
        rw [List.map_cons, List.nodup_cons, named]
        refine ⟨?_, keyed.distinct⟩
        intro again
        obtain ⟨route, listed, same⟩ := List.mem_map.mp again
        exact stored (List.any_eq_true.mpr ⟨route, listed, (Route.isOf_iff route).mpr same⟩)

/-! ## Removal -/

/-- Removal acts as on a map. -/
theorem unregister_acts {registry : Registry} (keyed : registry.Keyed)
    (protocol pluginId : CString) : ActsAsMap registry (.unregister protocol pluginId) := by
  have isKey (route : Route) := @Route.isOf_iff protocol pluginId route
  unfold ActsAsMap hwMetaprotoUnregister
  dsimp only
  rw [contents_ne_nil]
  by_cases stored : registry.routes.any (Route.isOf protocol pluginId) = true
  · rw [if_pos stored]
    refine ⟨?_, by simp [stored], fun failed => absurd rfl failed⟩
    funext key
    by_cases same : key = (protocol, pluginId)
    · rw [same, Function.update_self]
      exact filter_eraseP_self isKey keyed.distinct
    · rw [Function.update_of_ne same]
      apply filter_eraseP
      intro route matched
      exact @Route.isOf_apart (protocol, pluginId) key same route matched
  · rw [if_neg stored]
    have failed : hwrunEnoent ≠ hwrunOk := by decide
    have empty : registry.contents (protocol, pluginId) = [] := by
      by_contra filled
      exact stored (contents_ne_nil.mp filled)
    refine ⟨?_, by simp [stored, failed], fun _ => rfl⟩
    rw [← empty, Function.update_eq_self]

/-- Removal keeps the keys unique. -/
theorem unregister_keyed {registry : Registry} (keyed : registry.Keyed)
    (protocol pluginId : CString) :
    (registryStep registry (.unregister protocol pluginId)).Keyed := by
  have fewer := hwMetaprotoUnregister_sublist registry protocol pluginId
  refine ⟨?_, fun route listed => keyed.fits route (fewer.subset listed),
    keyed.distinct.sublist (fewer.map Route.key)⟩
  unfold registryStep hwMetaprotoUnregister
  dsimp only
  split <;> exact keyed.ready

/-! ## Runs -/

/-- The empty registry. -/
theorem hwMetaprotoInit_keyed : hwMetaprotoInit.Keyed where
  ready := rfl
  fits := by
    intro route listed
    cases listed
  distinct := List.nodup_nil

/-- In every run of registrations and removals, each operation acts as on a finite map exactly
when each registration that can be stored has names shorter than their fields. -/
theorem run_acts_iff (actions : List RegistryAction) :
    AllSteps registryStep ActsAsMap hwMetaprotoInit actions ↔
      AllSteps registryStep (fun _ action => NamesFit action) hwMetaprotoInit actions := by
  have kept (registry : Registry) (action : RegistryAction) (keyed : registry.Keyed)
      (fits : NamesFit action) : (registryStep registry action).Keyed := by
    cases action with
    | register protocol version pluginId implementation alloc => exact register_keyed keyed fits
    | unregister protocol pluginId => exact unregister_keyed keyed protocol pluginId
  have acts (registry : Registry) (action : RegistryAction) (keyed : registry.Keyed)
      (fits : NamesFit action) : ActsAsMap registry action := by
    cases action with
    | register protocol version pluginId implementation alloc => exact register_acts keyed fits
    | unregister protocol pluginId => exact unregister_acts keyed protocol pluginId
  have broken (registry : Registry) (action : RegistryAction) (keyed : registry.Keyed)
      (long : ¬ NamesFit action) : ¬ ActsAsMap registry action := by
    cases action with
    | register protocol version pluginId implementation alloc => exact register_long keyed long
    | unregister protocol pluginId => exact absurd trivial long
  exact allSteps_iff kept acts broken hwMetaprotoInit_keyed

/-- A protocol name of 64 bytes is registered and not resolved. -/
theorem long_name_unresolved :
    ¬ ∀ actions, AllSteps registryStep ActsAsMap hwMetaprotoInit actions := by
  intro always
  have first := always
    [.register (List.replicate 64 88) none (lit "plug-a") (.interface 1) true]
  have unresolved : ¬ (hwMetaprotoResolve (hwMetaprotoRegister hwMetaprotoInit
      (List.replicate 64 88) none (lit "plug-a") (.interface 1) true).1
      (List.replicate 64 88) none).isSome := by decide +kernel
  exact unresolved (first.1.1 rfl).1

end HwrunOs.Bus
