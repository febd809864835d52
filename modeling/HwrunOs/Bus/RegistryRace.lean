import HwrunOs.Library.Dispatch
import HwrunOs.Bus.Exclusion
import HwrunOs.Bus.Subscribe

/-!
# Concurrent registrations of one route

`hw_metaproto_register` and `hw_metaproto_unregister` change the routes in one critical section,
`hw_metaproto_notify` takes its snapshot of the subscribers in another, and the callbacks are called
outside of both. So the call that changed the routes last need not be the one that tells a
subscriber last. What is stored and what was told is stated for all orders of the steps.
-/

namespace HwrunOs.Bus

open HwrunOs.Bytes HwrunOs.Runs HwrunOs.Dispatch

variable {γ : Type}

/-! ## The calls -/

/-- A call for the route of one protocol and plugin. -/
inductive PairCall where
  /-- `hw_metaproto_register`. -/
  | register (version : Option CString) (implementation : Implementation) (alloc : Bool)
  /-- `hw_metaproto_unregister`. -/
  | unregister

/-- Whether a call registers the route. -/
def PairCall.registers : PairCall → Bool
  | .register _ _ _ => true
  | .unregister => false

/-- Whether the call at a position registers the route. -/
def registersAt (calls : List PairCall) (call : Nat) : Bool :=
  (calls[call]?.map PairCall.registers).getD false

/-- The critical sections of the two functions: the change of the routes with the parameters of the
notification, and the snapshot of the callbacks. -/
def pairAnnouncer (subscribers : List (Subscriber γ)) (protocol pluginId : CString) :
    Announcer Registry PairCall Notice γ where
  change registry
    | .register version implementation alloc =>
      let (after, rc) := hwMetaprotoRegister registry protocol version pluginId implementation alloc
      (after, if rc = hwrunOk then
        some (registerNotice registry protocol version pluginId implementation) else none)
    | .unregister =>
      let (after, _, notice) := hwMetaprotoUnregisterAny registry protocol (some pluginId)
      (after, notice)
  audience _ notice :=
    ((subscribers.filter (Subscriber.wants notice.protocol)).take 64).map Subscriber.callback

/-- The calls made from a state, in some order of their steps. -/
def pairRace (state : MetaState γ) (protocol pluginId : CString) (calls : List PairCall)
    (schedule : List Nat) : Race Registry Notice γ :=
  race (pairAnnouncer state.subscribers protocol pluginId) calls state.registry schedule

/-- The call of the registry that a call for the pair is. -/
def PairCall.action (protocol pluginId : CString) : PairCall → MetaAction γ
  | .register version implementation alloc =>
    .register protocol version pluginId implementation alloc
  | .unregister => .unregister protocol (some pluginId)

/-- A call that is not interrupted does what the function does: the routes are the same, and so are
the calls of callbacks. -/
theorem pairCall_alone {state : MetaState γ} {protocol pluginId : CString} {calls : List PairCall}
    {race : Race Registry Notice γ} {call : Nat} {args : PairCall}
    (mine : calls[call]? = some args) (idle : race.phases call = .idle)
    (here : race.shared = state.registry) :
    ∃ steps,
      let after := run (raceStep (pairAnnouncer state.subscribers protocol pluginId) calls) race
        (List.replicate steps call)
      after.shared = (metaStep state (args.action protocol pluginId)).registry ∧
        after.told = race.told ++ (metaCall state (args.action protocol pluginId)).2.2.map
          fun one => ⟨call, one.callback, one.notice⟩ := by
  obtain ⟨steps, shared, -, told⟩ :=
    @run_alone _ _ _ _ (pairAnnouncer state.subscribers protocol pluginId) _ _ _ _ mine idle
  refine ⟨steps, ?_, ?_⟩
  · rw [shared, here]
    cases args with
    | register version implementation alloc => rfl
    | unregister => rfl
  · rw [told, here]
    congr 1
    cases args with
    | register version implementation alloc =>
      by_cases success : (hwMetaprotoRegister state.registry protocol version pluginId
          implementation alloc).2 = hwrunOk
      · simp [pairAnnouncer, metaCall, PairCall.action, hwMetaprotoNotify, success,
          Function.comp_def]
      · simp [pairAnnouncer, metaCall, PairCall.action, success]
    | unregister =>
      cases notice : (hwMetaprotoUnregisterAny state.registry protocol (some pluginId)).2.2 with
      | none => simp [pairAnnouncer, metaCall, PairCall.action, notice]
      | some notice => simp [pairAnnouncer, metaCall, PairCall.action, hwMetaprotoNotify, notice,
          Function.comp_def]

/-! ## What one change does -/

/-- Changes without a notification change nothing, and the subscribers stay. -/
theorem pairAnnouncer_lawful (subscribers : List (Subscriber γ)) (protocol pluginId : CString) :
    (pairAnnouncer subscribers protocol pluginId).Lawful where
  silent := by
    intro registry args nothing
    cases args with
    | register version implementation alloc =>
      have failed : (hwMetaprotoRegister registry protocol version pluginId implementation
          alloc).2 ≠ hwrunOk := by
        intro success
        simp [pairAnnouncer, success] at nothing
      show (hwMetaprotoRegister registry protocol version pluginId implementation alloc).1 =
        registry
      unfold hwMetaprotoRegister at failed ⊢
      split
      · rfl
      · split
        · rename_i idle stored
          rw [if_neg idle, if_pos stored] at failed
          exact absurd rfl failed
        · split
          · rename_i idle stored memory
            rw [if_neg idle, if_neg stored, if_pos memory] at failed
            exact absurd rfl failed
          · rfl
    | unregister =>
      have nothing : (hwMetaprotoUnregisterAny registry protocol (some pluginId)).2.2 = none :=
        nothing
      show (hwMetaprotoUnregisterAny registry protocol (some pluginId)).1 = registry
      unfold hwMetaprotoUnregisterAny at nothing ⊢
      split at nothing
      · cases nothing
      · rfl
  audience _ _ _ := rfl

/-- The keys after an unregistration. -/
theorem unregisterAny_keys (registry : Registry) (protocol pluginId : CString) :
    (hwMetaprotoUnregisterAny registry protocol (some pluginId)).1.keys =
      registry.keys.erase (protocol, pluginId) := by
  rw [← unregister_keys, hwMetaprotoUnregisterAny_some]

section Pair

variable {subscribers : List (Subscriber γ)} {protocol pluginId : CString}
  (protocolFits : protocol.length < 64) (idFits : pluginId.length < 64)

include protocolFits idFits

/-- A change keeps the keys distinct. -/
theorem pairChange_nodup {registry : Registry} (distinct : registry.keys.Nodup)
    (args : PairCall) :
    ((pairAnnouncer subscribers protocol pluginId).change registry args).1.keys.Nodup := by
  cases args with
  | register version implementation alloc =>
    show (hwMetaprotoRegister registry protocol version pluginId implementation alloc).1.keys.Nodup
    by_cases ready : registry.initialized = true
    · by_cases stored : (protocol, pluginId) ∈ registry.keys
      · rw [(register_keys_stored ready version implementation alloc stored).2]
        exact distinct
      · rw [(register_keys_new ready version implementation alloc stored).2,
          snprintf_eq protocolFits, snprintf_eq idFits]
        split
        · exact List.nodup_cons.mpr ⟨stored, distinct⟩
        · exact distinct
    · rw [hwMetaprotoRegister, if_pos (by simp [ready])]
      exact distinct
  | unregister =>
    show (hwMetaprotoUnregisterAny registry protocol (some pluginId)).1.keys.Nodup
    rw [unregisterAny_keys]
    exact distinct.erase _

/-- A change that is told makes the route present or absent, and the state it tells says so. -/
theorem pairChange_told {registry : Registry} (distinct : registry.keys.Nodup) {args : PairCall}
    {notice : Notice}
    (told : ((pairAnnouncer subscribers protocol pluginId).change registry args).2 = some notice) :
    ((protocol, pluginId) ∈
        ((pairAnnouncer subscribers protocol pluginId).change registry args).1.keys ↔
      args.registers = true) ∧ (notice.state ≠ .removed ↔ args.registers = true) ∧
      notice.protocol = protocol ∧ notice.pluginId = pluginId := by
  cases args with
  | register version implementation alloc =>
    have both : (hwMetaprotoRegister registry protocol version pluginId implementation alloc).2 =
        hwrunOk ∧ registerNotice registry protocol version pluginId implementation = notice := by
      by_cases success : (hwMetaprotoRegister registry protocol version pluginId implementation
          alloc).2 = hwrunOk
      · simp only [pairAnnouncer, if_pos success, Option.some.injEq] at told
        exact ⟨success, told⟩
      · simp [pairAnnouncer, success] at told
    obtain ⟨success, rfl⟩ := both
    refine ⟨iff_of_true ?_ rfl, ?_⟩
    · show _ ∈ (hwMetaprotoRegister registry protocol version pluginId implementation alloc).1.keys
      have ready : registry.initialized = true := by
        by_contra idle
        rw [hwMetaprotoRegister, if_pos (by simp [idle])] at success
        exact absurd success (show hwrunEinval ≠ hwrunOk by decide)
      by_cases stored : (protocol, pluginId) ∈ registry.keys
      · rw [(register_keys_stored ready version implementation alloc stored).2]
        exact stored
      · obtain ⟨rc, keys⟩ := register_keys_new ready version implementation alloc stored
        cases memory : alloc with
        | true =>
          rw [memory, if_pos rfl, snprintf_eq protocolFits, snprintf_eq idFits] at keys
          rw [keys]
          exact List.mem_cons_self
        | false =>
          rw [rc, memory] at success
          exact absurd success (by decide)
    · unfold registerNotice
      split
      · rename_i route found
        have named := (Route.isOf_iff route).mp (List.find?_some found)
        have name : route.protocol = protocol := congrArg Prod.fst named
        exact ⟨iff_of_true (by simp) rfl, by rw [name, snprintf_eq protocolFits], rfl⟩
      · exact ⟨iff_of_true (by simp) rfl, snprintf_eq protocolFits, rfl⟩
  | unregister =>
    have told : (hwMetaprotoUnregisterAny registry protocol (some pluginId)).2.2 = some notice :=
      told
    refine ⟨iff_of_false ?_ (by simp [PairCall.registers]), ?_⟩
    · show _ ∉ (hwMetaprotoUnregisterAny registry protocol (some pluginId)).1.keys
      rw [unregisterAny_keys]
      exact distinct.not_mem_erase
    · unfold hwMetaprotoUnregisterAny at told
      split at told
      · rename_i route found
        obtain rfl := Option.some.inj told
        have named := (Route.isOf_iff route).mp (List.find?_some found)
        have name : route.protocol = protocol := congrArg Prod.fst named
        have plugin : route.pluginId = pluginId := congrArg Prod.snd named
        refine ⟨iff_of_false (by simp) (by simp [PairCall.registers]), ?_, ?_⟩
        · rw [name, snprintf_eq protocolFits]
        · rw [plugin, snprintf_eq idFits]
      · cases told

end Pair

/-! ## All orders of the steps -/

/-- The names of a registration fit their fields. -/
def RouteFits : MetaAction γ → Prop
  | .register protocol _ pluginId _ _ => protocol.length < 64 ∧ pluginId.length < 64
  | _ => True

/-- The registry after `hw_metaproto_init`. -/
def metaInit : MetaState γ := ⟨⟨true, []⟩, [], fun _ => none⟩

/-- A call of the registry with names that fit keeps the keys distinct. -/
theorem metaStep_nodup {state : MetaState γ} (distinct : state.registry.keys.Nodup)
    {action : MetaAction γ} (fits : RouteFits action) :
    (metaStep state action).registry.keys.Nodup := by
  cases action with
  | subscribe pluginId protocol callback alloc => exact distinct
  | register protocol version pluginId implementation alloc =>
    exact @pairChange_nodup γ state.subscribers _ _ fits.1 fits.2 _ distinct
      (.register version implementation alloc)
  | unregister protocol pluginId =>
    show (hwMetaprotoUnregisterAny state.registry protocol pluginId).1.keys.Nodup
    unfold hwMetaprotoUnregisterAny
    split
    · exact distinct.sublist (List.eraseP_sublist.map _)
    · exact distinct

/-- A registry built with names that fit has no key twice. -/
theorem metaRun_nodup {actions : List (MetaAction γ)}
    (fits : ∀ action ∈ actions, RouteFits action) :
    (run metaStep metaInit actions).registry.keys.Nodup := by
  have steps : AllSteps metaStep (fun _ action => RouteFits action) metaInit actions :=
    allSteps_of_mem fits metaInit
  have kept := @allStates_of_steps _ _ metaStep
    (fun state : MetaState γ => state.registry.keys.Nodup) (fun _ action => RouteFits action)
    (fun _ _ distinct fits => metaStep_nodup distinct fits) metaInit List.nodup_nil actions steps
  exact kept.last

section Race

variable {subscribers : List (Subscriber γ)} {protocol pluginId : CString}
  {calls : List PairCall} {registry : Registry}

/-- Changes keep the keys distinct. -/
theorem after_nodup (protocolFits : protocol.length < 64) (idFits : pluginId.length < 64)
    (distinct : registry.keys.Nodup) (changes : List Nat) :
    (after (pairAnnouncer subscribers protocol pluginId) calls registry changes).keys.Nodup := by
  induction changes generalizing registry with
  | nil => exact distinct
  | cons call rest ih =>
    unfold after at ih ⊢
    rw [List.foldl_cons]
    apply ih
    split
    · exact distinct
    · exact pairChange_nodup protocolFits idFits distinct _

/-- What a call that changed the routes told. -/
theorem makes_told (protocolFits : protocol.length < 64) (idFits : pluginId.length < 64)
    (distinct : registry.keys.Nodup) {changes : List Nat} {call : Nat} {notice : Notice}
    (makes : Makes (pairAnnouncer subscribers protocol pluginId) calls registry changes call
      notice) :
    (notice.state ≠ .removed ↔ registersAt calls call = true) ∧ notice.protocol = protocol ∧
      notice.pluginId = pluginId := by
  obtain ⟨args, front, -, mine, -, told⟩ := makes
  have kept := @after_nodup γ subscribers protocol pluginId calls registry protocolFits idFits
    distinct front
  have what := (pairChange_told protocolFits idFits kept told).2
  rw [registersAt, mine]
  exact what

end Race

/-- The subscribers that are told about a protocol. -/
def toldSubscribers (state : MetaState γ) (protocol : CString) : List (Subscriber γ) :=
  (state.subscribers.filter (Subscriber.wants protocol)).take 64

/-- The last state that a callback was told agrees with whether the route is present. -/
def LastStatesAgree [DecidableEq γ] (protocol pluginId : CString)
    (race : Race Registry Notice γ) : Prop :=
  ∀ callback told, race.lastTold callback = some told →
    (told.message.state ≠ .removed ↔ (protocol, pluginId) ∈ race.shared.keys)

/-- What the registry holds and what was told when all calls have returned. -/
structure RouteSettled [DecidableEq γ] (state : MetaState γ) (protocol pluginId : CString)
    (calls : List PairCall) (race : Race Registry Notice γ) : Prop where
  /-- The route is present when the call that changed the routes last registers it. -/
  present : (protocol, pluginId) ∈ race.shared.keys ↔
    match race.changes.getLast? with
    | none => (protocol, pluginId) ∈ state.registry.keys
    | some call => registersAt calls call = true
  /-- Every call that changed the routes told every subscriber of the snapshot what it did, each
  once. -/
  told : ∀ call ∈ race.changes, ∃ notice : Notice,
    (notice.state ≠ .removed ↔ registersAt calls call = true) ∧ notice.protocol = protocol ∧
      notice.pluginId = pluginId ∧ race.toldBy call =
        (toldSubscribers state protocol).map fun subscriber => (subscriber.callback, notice)
  /-- If one did, every subscriber of the snapshot was told last what such a call did. -/
  last : race.changes ≠ [] → ∀ subscriber ∈ toldSubscribers state protocol,
    ∃ told, race.lastTold subscriber.callback = some told ∧ told.call ∈ race.changes ∧
      (told.message.state ≠ .removed ↔ registersAt calls told.call = true)
  /-- That agrees with the routes exactly when the call did the same as the one that changed the
  routes last. -/
  agree : ∀ callback told call, race.lastTold callback = some told →
    race.changes.getLast? = some call →
      ((told.message.state ≠ .removed ↔ (protocol, pluginId) ∈ race.shared.keys) ↔
        registersAt calls told.call = registersAt calls call)

/-- A plugin that subscribed to a protocol. -/
def oneSubscriber : List (MetaAction Nat) :=
  [.subscribe (some (lit "shell")) (some (lit "HAP")) (some 1) true]

/-- One call registers the route and one removes it. -/
def registerAndRemove : List PairCall := [.register none .null true, .unregister]

end HwrunOs.Bus
