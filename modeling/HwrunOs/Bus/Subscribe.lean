import Mathlib.Logic.Function.Basic
import HwrunOs.Library.Runs
import HwrunOs.Bus.Metaproto

/-!
# Subscriptions to protocol changes

`hw_metaproto_subscribe` keeps a record for a plugin and a protocol, or for a plugin and all
protocols. When a record is there already it gets the new callback, but the test for it takes any
record of the plugin when the protocol is a null pointer, and it compares whole names with names
that were cut to 63 bytes. Every change of the registry calls the callbacks of the first 64
records that match. Callbacks are taken not to call back before the others are called.
-/

namespace HwrunOs.Bus

open HwrunOs.Bytes HwrunOs.Runs

variable {γ : Type}

/-! ## Subscribers -/

/-- `hw_protocol_sub_t`. -/
structure Subscriber (γ : Type) where
  /-- `plugin_id`, at most 63 bytes. -/
  pluginId : CString
  /-- `protocol`, at most 63 bytes; empty for all protocols. -/
  protocol : CString
  /-- `on_protocol_change`. -/
  callback : γ
  deriving DecidableEq

/-- The test for a record that is there already. -/
def Subscriber.isOf (pluginId : CString) (protocol : Option CString) (subscriber : Subscriber γ) :
    Bool :=
  subscriber.pluginId == pluginId && protocol.all fun name => subscriber.protocol == name

/-- A new record. -/
def newSubscriber (pluginId : CString) (protocol : Option CString) (callback : γ) :
    Subscriber γ where
  pluginId := snprintf 64 pluginId
  protocol := (protocol.map (snprintf 64)).getD []
  callback := callback

/-- The first record that the test takes gets the callback. -/
def giveCallback (pluginId : CString) (protocol : Option CString) (callback : γ)
    (subscribers : List (Subscriber γ)) : List (Subscriber γ) :=
  subscribers.replaceF fun subscriber =>
    if subscriber.isOf pluginId protocol then some { subscriber with callback := callback }
    else none

/-- `hw_metaproto_subscribe`; `alloc` is the outcome of the allocation. -/
def hwMetaprotoSubscribe (subscribers : List (Subscriber γ)) (pluginId protocol : Option CString)
    (callback : Option γ) (alloc : Bool) : List (Subscriber γ) × Int :=
  match pluginId, callback with
  | some pluginId, some callback =>
    if subscribers.any (Subscriber.isOf pluginId protocol) then
      (giveCallback pluginId protocol callback subscribers, hwrunOk)
    else if alloc then (newSubscriber pluginId protocol callback :: subscribers, hwrunOk)
    else (subscribers, hwrunEnomem)
  | _, _ => (subscribers, hwrunEinval)

/-- When there is such a record, one that the test takes has the callback, and the others stay. -/
theorem giveCallback_split {pluginId : CString} {protocol : Option CString} (callback : γ)
    {subscribers : List (Subscriber γ)}
    (found : subscribers.any (Subscriber.isOf pluginId protocol) = true) :
    ∃ old front back, old.isOf pluginId protocol = true ∧ subscribers = front ++ old :: back ∧
      giveCallback pluginId protocol callback subscribers =
        front ++ { old with callback := callback } :: back := by
  obtain ⟨taken, member, own⟩ := List.any_eq_true.mp found
  obtain ⟨old, new, front, back, -, changed, before, after⟩ :=
    @List.exists_of_replaceF _ (fun subscriber =>
      if subscriber.isOf pluginId protocol then some { subscriber with callback := callback }
      else none) _ _ _ member (if_pos own)
  split at changed
  next own =>
    obtain rfl := Option.some.inj changed
    exact ⟨old, front, back, own, before, after⟩
  next => cases changed

/-! ## Notification -/

/-- `HWPROTO_STATE_REGISTERED`, `HWPROTO_STATE_REMOVED` and `HWPROTO_STATE_CHANGED`. -/
inductive ProtocolState where
  /-- A route is new. -/
  | registered
  /-- A route is gone. -/
  | removed
  /-- A route is updated. -/
  | changed
  deriving DecidableEq

/-- The arguments of a callback. -/
structure Notice where
  /-- The protocol. -/
  protocol : CString
  /-- Its version. -/
  version : CString
  /-- The plugin that provides it. -/
  pluginId : CString
  /-- What happened. -/
  state : ProtocolState
  deriving DecidableEq

/-- A call of a callback. -/
structure ProtocolCall (γ : Type) where
  /-- The callback. -/
  callback : γ
  /-- Its arguments. -/
  notice : Notice
  deriving DecidableEq

/-- Whether a record is for changes of a protocol. -/
def Subscriber.wants (protocol : CString) (subscriber : Subscriber γ) : Bool :=
  subscriber.protocol == [] || subscriber.protocol == protocol

/-- `hw_metaproto_notify`: `snaps` has room for 64 callbacks. -/
def hwMetaprotoNotify (subscribers : List (Subscriber γ)) (notice : Notice) :
    List (ProtocolCall γ) :=
  ((subscribers.filter (Subscriber.wants notice.protocol)).take 64).map fun subscriber =>
    ⟨subscriber.callback, notice⟩

/-- What `hw_metaproto_register` tells: `notify_proto`, `notify_version` and `notify_state`. -/
def registerNotice (registry : Registry) (protocol : CString) (version : Option CString)
    (pluginId : CString) (implementation : Implementation) : Notice :=
  match registry.routes.find? (Route.isOf protocol pluginId) with
  | some route =>
    ⟨snprintf 64 route.protocol, snprintf 16 (route.update version implementation).version,
      pluginId, .changed⟩
  | none =>
    ⟨snprintf 64 protocol,
      snprintf 16 (newRoute protocol version pluginId implementation).version, pluginId,
      .registered⟩

/-- Whether a route is of a protocol, and of a plugin when one is given. -/
def Route.isOfAny (protocol : CString) (pluginId : Option CString) (route : Route) : Bool :=
  route.protocol == protocol && pluginId.all fun id => route.pluginId == id

/-- `hw_metaproto_unregister` with or without a plugin id, and what it tells. -/
def hwMetaprotoUnregisterAny (registry : Registry) (protocol : CString)
    (pluginId : Option CString) : Registry × Int × Option Notice :=
  match registry.routes.find? (Route.isOfAny protocol pluginId) with
  | some route =>
    ({ registry with routes := registry.routes.eraseP (Route.isOfAny protocol pluginId) }, hwrunOk,
      some ⟨snprintf 64 route.protocol, snprintf 16 route.version, snprintf 64 route.pluginId,
        .removed⟩)
  | none => (registry, hwrunEnoent, none)

/-- With a plugin id that is the removal of its route. -/
theorem hwMetaprotoUnregisterAny_some (registry : Registry) (protocol pluginId : CString) :
    hwMetaprotoUnregister registry protocol pluginId =
      ((hwMetaprotoUnregisterAny registry protocol (some pluginId)).1,
        (hwMetaprotoUnregisterAny registry protocol (some pluginId)).2.1) := by
  have same : Route.isOfAny protocol (some pluginId) = Route.isOf protocol pluginId := rfl
  unfold hwMetaprotoUnregister hwMetaprotoUnregisterAny
  rw [same]
  cases found : registry.routes.find? (Route.isOf protocol pluginId) with
  | some route =>
    have any : registry.routes.any (Route.isOf protocol pluginId) = true := by
      rw [List.any_eq_true]
      exact ⟨route, List.mem_of_find?_eq_some found, List.find?_some found⟩
    rw [if_pos any]
  | none =>
    have any : ¬ registry.routes.any (Route.isOf protocol pluginId) = true := by
      rw [List.any_eq_true]
      rintro ⟨route, member, own⟩
      exact List.find?_eq_none.mp found route member own
    rw [if_neg any]

/-! ## Runs -/

/-- A plugin, and the protocol it subscribes to, or none for all. -/
abbrev Topic : Type := CString × Option CString

/-- The registry with its subscribers, newest first, and the callback that each plugin gave last
for each topic. -/
structure MetaState (γ : Type) where
  /-- The routes. -/
  registry : Registry
  /-- The records. -/
  subscribers : List (Subscriber γ)
  /-- What the plugins have subscribed to. -/
  table : Topic → Option γ

/-- A call of a function of the registry. -/
inductive MetaAction (γ : Type) where
  /-- `hw_metaproto_subscribe`. -/
  | subscribe (pluginId protocol : Option CString) (callback : Option γ) (alloc : Bool)
  /-- `hw_metaproto_register`. -/
  | register (protocol : CString) (version : Option CString) (pluginId : CString)
    (implementation : Implementation) (alloc : Bool)
  /-- `hw_metaproto_unregister`. -/
  | unregister (protocol : CString) (pluginId : Option CString)

/-- A successful subscription is entered in the table. -/
def enter (table : Topic → Option γ) (pluginId protocol : Option CString) (callback : Option γ)
    (rc : Int) : Topic → Option γ :=
  match pluginId with
  | some pluginId =>
    if rc = hwrunOk then Function.update table (pluginId, protocol) callback else table
  | none => table

/-- The state after a call, its return code and the calls of callbacks it makes. -/
def metaCall (state : MetaState γ) : MetaAction γ → MetaState γ × Int × List (ProtocolCall γ)
  | .subscribe pluginId protocol callback alloc =>
    let (subscribers, rc) := hwMetaprotoSubscribe state.subscribers pluginId protocol callback alloc
    ({ state with
        subscribers := subscribers
        table := enter state.table pluginId protocol callback rc }, rc, [])
  | .register protocol version pluginId implementation alloc =>
    let (registry, rc) :=
      hwMetaprotoRegister state.registry protocol version pluginId implementation alloc
    let notice := registerNotice state.registry protocol version pluginId implementation
    ({ state with registry := registry }, rc,
      if rc = hwrunOk then hwMetaprotoNotify state.subscribers notice else [])
  | .unregister protocol pluginId =>
    let (registry, rc, notice) := hwMetaprotoUnregisterAny state.registry protocol pluginId
    ({ state with registry := registry }, rc,
      notice.elim [] (hwMetaprotoNotify state.subscribers))

/-- The state after a call. -/
def metaStep (state : MetaState γ) (action : MetaAction γ) : MetaState γ :=
  (metaCall state action).1

/-- The callback of every plugin that subscribed to the protocol or to all is called. -/
def Reaches (table : Topic → Option γ) (protocol : CString) (calls : List (ProtocolCall γ)) :
    Prop :=
  ∀ topic callback, table topic = some callback → topic.2 = none ∨ topic.2 = some protocol →
    ∃ call ∈ calls, call.callback = callback ∧ call.notice.protocol = snprintf 64 protocol

/-- A change that succeeds reaches all who subscribed to it. -/
def ChangeTold (state : MetaState γ) (action : MetaAction γ) : Prop :=
  match action with
  | .subscribe _ _ _ _ => True
  | .register protocol _ _ _ _ | .unregister protocol _ =>
    (metaCall state action).2.1 = hwrunOk →
      Reaches state.table protocol (metaCall state action).2.2

/-- There are at most 64 subscribers. -/
def FewSubscribers (state : MetaState γ) (_ : MetaAction γ) : Prop := state.subscribers.length ≤ 64

instance (state : MetaState γ) (action : MetaAction γ) : Decidable (FewSubscribers state action) :=
  inferInstanceAs (Decidable (_ ≤ _))

/-- The test takes no record of another topic for the one of this. -/
def OwnRecord (state : MetaState γ) : MetaAction γ → Prop
  | .subscribe (some pluginId) protocol (some callback) _ =>
    ∀ topic, state.table topic ≠ none →
      (newSubscriber topic.1 topic.2 callback).isOf pluginId protocol = true →
      topic = (pluginId, protocol)
  | _ => True

/-- No plugin has subscribed yet. -/
structure MetaState.Fresh (state : MetaState γ) : Prop where
  /-- There are no records. -/
  subscribers : state.subscribers = []
  /-- The table is empty. -/
  table : ∀ topic, state.table topic = none

/-! ## What the records are -/

/-- Every record is that of a topic in the table, and every entry of the table has its record. -/
structure Served (state : MetaState γ) : Prop where
  /-- Whose records there are. -/
  known : ∀ subscriber ∈ state.subscribers, ∃ topic, state.table topic ≠ none ∧
    subscriber = newSubscriber topic.1 topic.2 subscriber.callback
  /-- Who has a record. -/
  entered : ∀ topic callback, state.table topic = some callback →
    newSubscriber topic.1 topic.2 callback ∈ state.subscribers

/-- In the beginning there are none. -/
theorem MetaState.Fresh.served {state : MetaState γ} (fresh : state.Fresh) : Served state where
  known := by
    intro subscriber member
    rw [fresh.subscribers] at member
    cases member
  entered := by
    intro topic callback has
    rw [fresh.table topic] at has
    cases has

/-- An entry that is changed stays an entry. -/
theorem update_entered {table : Topic → Option γ} (topic : Topic) (callback : γ) {other : Topic}
    (has : table other ≠ none) : Function.update table topic (some callback) other ≠ none := by
  rw [Function.update_apply]
  split
  · rintro ⟨⟩
  · exact has

/-- The record of a topic gets the callback. -/
theorem Served.replace {state : MetaState γ} (served : Served state) {pluginId : CString}
    {protocol : Option CString} {callback : γ}
    (own : ∀ topic, state.table topic ≠ none →
      (newSubscriber topic.1 topic.2 callback).isOf pluginId protocol = true →
      topic = (pluginId, protocol))
    (found : state.subscribers.any (Subscriber.isOf pluginId protocol) = true) :
    Served { state with
      subscribers := giveCallback pluginId protocol callback state.subscribers
      table := Function.update state.table (pluginId, protocol) (some callback) } := by
  obtain ⟨old, front, back, taken, before, after⟩ := giveCallback_split callback found
  rw [after]
  -- The record that is taken is that of the topic.
  have record : ({ old with callback := callback } : Subscriber γ) =
      newSubscriber pluginId protocol callback := by
    obtain ⟨topic, has, made⟩ := served.known old (by rw [before]; simp)
    have mine : topic = (pluginId, protocol) := by
      apply own topic has
      rw [made] at taken
      exact taken
    rw [made, mine]
    rfl
  constructor
  · intro subscriber member
    have cases : subscriber = newSubscriber pluginId protocol callback ∨
        subscriber ∈ state.subscribers := by
      rw [record] at member
      rw [before]
      simp only [List.mem_append, List.mem_cons] at member ⊢
      tauto
    obtain rfl | member := cases
    · refine ⟨(pluginId, protocol), ?_, rfl⟩
      show Function.update state.table (pluginId, protocol) (some callback) _ ≠ none
      rw [Function.update_self]
      rintro ⟨⟩
    · obtain ⟨topic, has, made⟩ := served.known subscriber member
      exact ⟨topic, update_entered _ callback has, made⟩
  · intro topic last entry
    have has : Function.update state.table (pluginId, protocol) (some callback) topic =
        some last := entry
    show newSubscriber topic.1 topic.2 last ∈ front ++ { old with callback := callback } :: back
    by_cases same : topic = (pluginId, protocol)
    · rw [same, Function.update_self] at has
      rw [record, same, ← Option.some.inj has]
      simp
    · rw [Function.update_of_ne same] at has
      have member := served.entered topic last has
      rw [before, List.mem_append, List.mem_cons] at member
      have entered : state.table topic ≠ none := by
        rw [has]
        rintro ⟨⟩
      have different : newSubscriber topic.1 topic.2 last ≠ old := by
        rintro rfl
        exact same (own topic entered taken)
      simp only [List.mem_append, List.mem_cons]
      tauto

/-- A topic without a record gets one. -/
theorem Served.create {state : MetaState γ} (served : Served state) (pluginId : CString)
    (protocol : Option CString) (callback : γ) :
    Served { state with
      subscribers := newSubscriber pluginId protocol callback :: state.subscribers
      table := Function.update state.table (pluginId, protocol) (some callback) } := by
  constructor
  · intro subscriber member
    obtain rfl | member := List.mem_cons.mp member
    · refine ⟨(pluginId, protocol), ?_, rfl⟩
      show Function.update state.table (pluginId, protocol) (some callback) _ ≠ none
      rw [Function.update_self]
      rintro ⟨⟩
    · obtain ⟨topic, has, made⟩ := served.known subscriber member
      exact ⟨topic, update_entered _ callback has, made⟩
  · intro topic last entry
    have has : Function.update state.table (pluginId, protocol) (some callback) topic =
        some last := entry
    by_cases same : topic = (pluginId, protocol)
    · rw [same, Function.update_self] at has
      rw [same, ← Option.some.inj has]
      exact List.mem_cons_self
    · rw [Function.update_of_ne same] at has
      exact List.mem_cons_of_mem _ (served.entered topic last has)

/-- Every call keeps this, as long as no record is taken for that of another topic. -/
theorem Served.step {state : MetaState γ} (served : Served state) {action : MetaAction γ}
    (own : OwnRecord state action) : Served (metaStep state action) := by
  cases action with
  | subscribe pluginId protocol callback alloc =>
    cases pluginId with
    | none => exact served
    | some pluginId =>
      cases callback with
      | none => exact served
      | some callback =>
        have own : ∀ topic, state.table topic ≠ none →
            (newSubscriber topic.1 topic.2 callback).isOf pluginId protocol = true →
            topic = (pluginId, protocol) := own
        unfold metaStep metaCall hwMetaprotoSubscribe
        dsimp only
        by_cases found : state.subscribers.any (Subscriber.isOf pluginId protocol) = true
        · rw [if_pos found]
          exact served.replace own found
        · rw [if_neg found]
          cases alloc with
          | true => exact served.create pluginId protocol callback
          | false => exact served
  | register protocol version pluginId implementation alloc => exact ⟨served.known, served.entered⟩
  | unregister protocol pluginId => exact ⟨served.known, served.entered⟩

/-! ## Who is called -/

/-- With few subscribers every one that wants the notice gets it. -/
theorem Served.reaches {state : MetaState γ} (served : Served state)
    (few : state.subscribers.length ≤ 64) {protocol : CString} {notice : Notice}
    (named : notice.protocol = snprintf 64 protocol) :
    Reaches state.table protocol (hwMetaprotoNotify state.subscribers notice) := by
  intro topic callback has wants
  have member := served.entered topic callback has
  have wanted : (newSubscriber topic.1 topic.2 callback).wants notice.protocol = true := by
    unfold Subscriber.wants newSubscriber
    obtain all | one := wants
    · simp [all]
    · simp [one, named]
  have whole : (state.subscribers.filter (Subscriber.wants notice.protocol)).take 64 =
      state.subscribers.filter (Subscriber.wants notice.protocol) :=
    List.take_of_length_le ((List.length_filter_le _ _).trans few)
  refine ⟨⟨callback, notice⟩, ?_, rfl, named⟩
  rw [hwMetaprotoNotify, whole, List.mem_map]
  exact ⟨_, List.mem_filter.mpr ⟨member, wanted⟩, rfl⟩

/-- A registration tells the name that records have of its protocol. -/
theorem registerNotice_protocol (registry : Registry) (protocol : CString)
    (version : Option CString) (pluginId : CString) (implementation : Implementation) :
    (registerNotice registry protocol version pluginId implementation).protocol =
      snprintf 64 protocol := by
  unfold registerNotice
  cases found : registry.routes.find? (Route.isOf protocol pluginId) with
  | none => rfl
  | some route =>
    have own := List.find?_some found
    simp only [Route.isOf, Bool.and_eq_true, beq_iff_eq] at own
    exact congrArg (snprintf 64) own.1

/-- A change that succeeds is told. -/
theorem Served.told {state : MetaState γ} (served : Served state)
    (few : state.subscribers.length ≤ 64) (action : MetaAction γ) : ChangeTold state action := by
  cases action with
  | subscribe pluginId protocol callback alloc => trivial
  | register protocol version pluginId implementation alloc =>
    intro success
    have calls : (metaCall state (.register protocol version pluginId implementation alloc)).2.2 =
        hwMetaprotoNotify state.subscribers
          (registerNotice state.registry protocol version pluginId implementation) :=
      if_pos success
    rw [calls]
    exact served.reaches few (registerNotice_protocol _ _ _ _ _)
  | unregister protocol pluginId =>
    intro success
    cases found : state.registry.routes.find? (Route.isOfAny protocol pluginId) with
    | none =>
      simp only [metaCall, hwMetaprotoUnregisterAny, found] at success
      exact absurd success (by decide)
    | some route =>
      have own := List.find?_some found
      simp only [Route.isOfAny, Bool.and_eq_true, beq_iff_eq] at own
      simp only [metaCall, hwMetaprotoUnregisterAny, found]
      exact served.reaches few (congrArg (snprintf 64) own.1)

/-! ## Runs -/

/-- In every sequence of calls in which no subscription takes the record of another topic, and
there are at most 64 subscribers, every change reaches all who subscribed to it. -/
theorem changes_told {start : MetaState γ} (fresh : start.Fresh) {actions : List (MetaAction γ)}
    (few : AllSteps metaStep FewSubscribers start actions)
    (own : AllSteps metaStep OwnRecord start actions) :
    AllSteps metaStep ChangeTold start actions := by
  have both := few.and own
  refine allSteps_of_steps Served ?_ ?_ fresh.served both
  · exact fun state action served met => served.step met.2
  · exact fun state action served met => served.told met.1 action

/-- An empty registry without subscribers. -/
def noSubscribers : MetaState Nat where
  registry := ⟨true, []⟩
  subscribers := []
  table _ := none

/-- A subscription of a plugin. -/
def watch (protocol : Option String) (callback : Nat) : MetaAction Nat :=
  .subscribe (some (lit "watcher")) (protocol.map lit) (some callback) true

/-- A new route. -/
def provide (protocol : String) : MetaAction Nat :=
  .register (lit protocol) none (lit "provider") .null true

/-- A plugin that subscribes to all protocols and then to one. -/
theorem changes_told_all_first : AllSteps metaStep ChangeTold noSubscribers
    [watch none 1, watch (some "ECHO") 2, provide "ECHO", provide "OTHER"] := by
  refine changes_told ⟨rfl, fun _ => rfl⟩ (by decide +kernel)
    ⟨?_, ?_, trivial, trivial, trivial⟩
  · intro topic has
    exact absurd rfl has
  · intro topic has taken
    by_cases all : topic = (lit "watcher", none)
    · rw [all] at taken
      exact absurd taken (by decide +kernel)
    · exact absurd (Function.update_of_ne all _ _) has

/-- A plugin that subscribes to one protocol and then to all is not told of another. -/
theorem all_after_one_untold :
    (run metaStep noSubscribers [watch (some "ECHO") 1, watch none 2]).table
        (lit "watcher", none) = some 2 ∧
      (metaCall (run metaStep noSubscribers [watch (some "ECHO") 1, watch none 2])
        (provide "OTHER")).2 = (hwrunOk, []) ∧
      AllSteps metaStep FewSubscribers noSubscribers
        [watch (some "ECHO") 1, watch none 2, provide "OTHER"] ∧
      ¬ AllSteps metaStep ChangeTold noSubscribers
        [watch (some "ECHO") 1, watch none 2, provide "OTHER"] := by
  have entered : (run metaStep noSubscribers [watch (some "ECHO") 1, watch none 2]).table
      (lit "watcher", none) = some 2 := by decide +kernel
  have silent : (metaCall (run metaStep noSubscribers [watch (some "ECHO") 1, watch none 2])
      (provide "OTHER")).2 = (hwrunOk, []) := by decide +kernel
  refine ⟨entered, silent, by decide +kernel, ?_⟩
  rintro ⟨-, -, told, -⟩
  have told : (metaCall (run metaStep noSubscribers [watch (some "ECHO") 1, watch none 2])
      (provide "OTHER")).2.1 = hwrunOk → Reaches
        (run metaStep noSubscribers [watch (some "ECHO") 1, watch none 2]).table (lit "OTHER")
        (metaCall (run metaStep noSubscribers [watch (some "ECHO") 1, watch none 2])
          (provide "OTHER")).2.2 := told
  rw [silent] at told
  obtain ⟨call, called, -⟩ := told rfl _ 2 entered (.inl rfl)
  cases called

end HwrunOs.Bus
