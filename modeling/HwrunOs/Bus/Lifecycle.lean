import HwrunOs.Library.Acquire
import HwrunOs.Bus.Core

/-!
# The lifecycle of the plugin callbacks

`init` acquires a plugin and `destroy` releases it. The bus does not record whether a plugin is
initialised: `hw_plugin_unload` calls `destroy` in every state, `hw_plugin_start` calls `init`
again after a stop or a failed start, and `hw_bus_shutdown` unloads only started or loaded
nodes. The callbacks alternate along a run exactly when the operations are applied only where
these three omissions do no harm.
-/

namespace HwrunOs.Bus

open HwrunOs.Bytes HwrunOs.Runs HwrunOs.Acquire

/-- What a call means for the lifecycle of one plugin. -/
def lifecycleEvent (id : CString) : Call → Option Event
  | .init other rc => if other = id then some (.acquire (decide (rc = hwrunOk))) else none
  | .destroy other => if other = id then some .release else none
  | _ => none

/-- The `init` and `destroy` calls of one plugin, in order. -/
def lifecycleEvents (id : CString) (bus : HwBus) : List Event :=
  bus.calls.filterMap (lifecycleEvent id)

/-- A plugin is initialised: the last `init` or `destroy` call was an `init` that succeeded. -/
def Initialised (bus : HwBus) (id : CString) : Prop :=
  (lifecycleEvents id bus).getLast? = some (.acquire true)

instance (bus : HwBus) (id : CString) : Decidable (Initialised bus id) :=
  inferInstanceAs (Decidable (_ = _))

/-- Every plugin's callbacks obey the lifecycle: `destroy` only after a successful `init`,
`init` not again before it, and no plugin left initialised. -/
def LifecycleObeyed (bus : HwBus) : Prop :=
  ∀ id, follow false (lifecycleEvents id bus) = some false

/-- An operation is applied where it keeps the lifecycle: no start reaches `init` of an
initialised plugin, and no unload reaches `destroy` of one that is not. -/
def Disciplined (bus : HwBus) : PluginAction → Prop
  | .load id _ => ∀ plugin ∈ bus.plugins.find id, plugin.state ≠ .started →
      Startable bus.metaproto plugin → plugin.ops.init.isSome → ¬ Initialised bus id
  | .stop _ => True
  | .unload id => ∀ plugin ∈ bus.plugins.find id, plugin.ops.destroy.isSome → Initialised bus id

instance : (bus : HwBus) → (action : PluginAction) → Decidable (Disciplined bus action)
  | bus, .load id _ => inferInstanceAs (Decidable (∀ plugin ∈ bus.plugins.find id,
      plugin.state ≠ .started → Startable bus.metaproto plugin → plugin.ops.init.isSome →
        ¬ Initialised bus id))
  | _, .stop _ => inferInstanceAs (Decidable True)
  | bus, .unload id => inferInstanceAs (Decidable (∀ plugin ∈ bus.plugins.find id,
      plugin.ops.destroy.isSome → Initialised bus id))

/-- Shutdown destroys a node: it is started or loaded and has the callback. -/
def Destroyed (plugin : Plugin) : Prop :=
  (plugin.state = .started ∨ plugin.state = .loaded) ∧ plugin.ops.destroy.isSome

instance (plugin : Plugin) : Decidable (Destroyed plugin) := inferInstanceAs (Decidable (_ ∧ _))

/-- Shutdown finds exactly the initialised plugins in a state it destroys. -/
def ShutdownDisciplined (bus : HwBus) : Prop :=
  ∀ plugin ∈ bus.plugins.nodes, Destroyed plugin ↔ Initialised bus plugin.id

instance (bus : HwBus) : Decidable (ShutdownDisciplined bus) :=
  inferInstanceAs (Decidable (∀ plugin ∈ bus.plugins.nodes, _))

/-! ## The calls of each operation -/

/-- A call of one plugin is no event of another. -/
theorem lifecycleEvents_log (id : CString) (bus : HwBus) (call : Call) :
    lifecycleEvents id (bus.log call) =
      lifecycleEvents id bus ++ (lifecycleEvent id call).toList := by
  rw [lifecycleEvents, log_calls, List.filterMap_append]
  cases event : lifecycleEvent id call <;> simp [lifecycleEvents, event]

/-- The lifecycle depends on the log only. -/
theorem lifecycleEvents_congr {id : CString} {first second : HwBus}
    (same : first.calls = second.calls) : lifecycleEvents id first = lifecycleEvents id second := by
  rw [lifecycleEvents, same, lifecycleEvents]

/-- Injection is no lifecycle event. -/
theorem lifecycleEvents_inject (id : CString) (bus : HwBus) (plugin : Plugin) :
    lifecycleEvents id (hwPluginInjectRuntime bus plugin) = lifecycleEvents id bus := by
  unfold hwPluginInjectRuntime
  split
  · rfl
  · dsimp only
    split
    · rw [lifecycleEvents_log]
      simp [lifecycleEvent]
    · rfl

/-- `init` is an attempt to acquire its plugin. -/
theorem lifecycleEvents_callInit (id : CString) (env : Env) (bus : HwBus) (plugin : Plugin) :
    lifecycleEvents id (callInit env bus plugin).1 = lifecycleEvents id bus ++
      if plugin.ops.init.isSome ∧ plugin.id = id then
        [.acquire (decide (env.initRc plugin.id = hwrunOk))] else [] := by
  unfold callInit
  by_cases present : plugin.ops.init.isSome
  · rw [if_pos present, lifecycleEvents_log]
    by_cases named : plugin.id = id <;> simp [lifecycleEvent, named, present]
  · simp [present]

/-- `start` is no lifecycle event. -/
theorem lifecycleEvents_callStart (id : CString) (env : Env) (bus : HwBus) (plugin : Plugin) :
    lifecycleEvents id (callStart env bus plugin).1 = lifecycleEvents id bus := by
  unfold callStart
  split
  · rw [lifecycleEvents_log]
    simp [lifecycleEvent]
  · rfl

/-- After `init` a start makes no lifecycle event. -/
theorem lifecycleEvents_finishStart (id : CString) (env : Env) (bus : HwBus) (plugin : Plugin) :
    lifecycleEvents id (finishStart env bus plugin).1 = lifecycleEvents id bus := by
  have started := lifecycleEvents_callStart id env
  unfold finishStart
  dsimp only
  split
  · exact lifecycleEvents_congr rfl
  · split
    · exact (lifecycleEvents_congr rfl).trans ((started _ plugin).trans (lifecycleEvents_congr rfl))
    · exact (lifecycleEvents_congr rfl).trans ((started _ plugin).trans (lifecycleEvents_congr rfl))

/-- A start makes one attempt to acquire its plugin when the checks pass, and none otherwise. -/
theorem lifecycleEvents_start (id : CString) (env : Env) (bus : HwBus) (plugin : Plugin) :
    lifecycleEvents id (hwPluginStart env bus plugin).1 = lifecycleEvents id bus ++
      if Startable bus.metaproto plugin ∧ plugin.ops.init.isSome ∧ plugin.id = id then
        [.acquire (decide (env.initRc plugin.id = hwrunOk))] else [] := by
  by_cases passed : Startable bus.metaproto plugin
  · have initialised := lifecycleEvents_callInit id env (hwPluginInjectRuntime bus plugin) plugin
    rw [lifecycleEvents_inject] at initialised
    simp only [passed, true_and]
    rw [← initialised, hwPluginStart_passed passed]
    split
    · exact lifecycleEvents_congr rfl
    · exact lifecycleEvents_finishStart id env _ plugin
  · rw [(hwPluginStart_refused env passed).1]
    simp only [passed, false_and, if_false, List.append_nil]
    exact lifecycleEvents_congr rfl

/-- A stop makes no lifecycle event. -/
theorem lifecycleEvents_stop (id : CString) (bus : HwBus) (plugin : Plugin) :
    lifecycleEvents id (hwPluginStop bus plugin) = lifecycleEvents id bus := by
  have logged : lifecycleEvents id (if plugin.ops.stop.isSome then bus.log (.stop plugin.id)
      else bus) = lifecycleEvents id bus := by
    split
    · rw [lifecycleEvents_log]
      simp [lifecycleEvent]
    · rfl
  exact (lifecycleEvents_congr rfl).trans logged

/-- An unload releases its plugin, in whatever state it is. -/
theorem lifecycleEvents_unload (id : CString) (bus : HwBus) (plugin : Plugin) :
    lifecycleEvents id (hwPluginUnload bus plugin) = lifecycleEvents id bus ++
      if plugin.ops.destroy.isSome ∧ plugin.id = id then [.release] else [] := by
  have stopped : lifecycleEvents id (if plugin.state = .started ∨ plugin.state = .loaded then
      hwPluginStop bus plugin else bus) = lifecycleEvents id bus := by
    split
    · exact lifecycleEvents_stop id bus plugin
    · rfl
  unfold hwPluginUnload
  dsimp only
  rw [← stopped]
  generalize (if plugin.state = .started ∨ plugin.state = .loaded then
    hwPluginStop bus plugin else bus) = middle
  by_cases present : plugin.ops.destroy.isSome
  · simp only [present, true_and, if_true]
    change lifecycleEvents id (middle.log (.destroy plugin.id)) = _
    rw [lifecycleEvents_log]
    by_cases named : plugin.id = id <;> simp [lifecycleEvent, named]
  · simp only [present, Bool.false_eq_true, false_and, if_false, List.append_nil]
    exact lifecycleEvents_congr rfl

/-- Shutting down nodes releases those that are destroyed. -/
theorem lifecycleEvents_shutdownNodes (id : CString) (nodes : List Plugin) (bus : HwBus) :
    lifecycleEvents id (nodes.foldl shutdownNode bus) = lifecycleEvents id bus ++
      (nodes.filter fun node => Destroyed node ∧ node.id = id).map fun _ => .release := by
  induction nodes generalizing bus with
  | nil => simp
  | cons node rest ih =>
    have first : lifecycleEvents id (shutdownNode bus node) = lifecycleEvents id bus ++
        if Destroyed node ∧ node.id = id then [.release] else [] := by
      unfold shutdownNode
      by_cases running : node.state = .started ∨ node.state = .loaded
      · rw [if_pos running, lifecycleEvents_unload]
        simp only [Destroyed, running, true_and]
      · rw [if_neg running]
        simp [Destroyed, running]
    rw [List.foldl_cons, ih, first, List.append_assoc]
    by_cases released : Destroyed node ∧ node.id = id
    · rw [if_pos released, List.filter_cons_of_pos (by simpa using released)]
      rfl
    · rw [if_neg released, List.filter_cons_of_neg (by simpa using released), List.nil_append]

/-- Of nodes with distinct ids at most one has the id of a listed node. -/
theorem filter_id {nodes : List Plugin} (unique : (nodes.map Plugin.id).Nodup) {node : Plugin}
    (listed : node ∈ nodes) (selected : Plugin → Prop) [DecidablePred selected] :
    (nodes.filter fun other => selected other ∧ other.id = node.id) =
      if selected node then [node] else [] := by
  induction nodes with
  | nil => cases listed
  | cons head rest ih =>
    obtain ⟨absent, unique⟩ := List.nodup_cons.mp unique
    rcases List.mem_cons.mp listed with rfl | later
    · have others : (rest.filter fun other => selected other ∧ other.id = node.id) = [] := by
        rw [List.filter_eq_nil_iff]
        intro other member matched
        simp only [decide_eq_true_eq] at matched
        exact absent (List.mem_map.mpr ⟨other, member, matched.2⟩)
      by_cases chosen : selected node
      · rw [List.filter_cons_of_pos (by simp [chosen]), others, if_pos chosen]
      · rw [List.filter_cons_of_neg (by simp [chosen]), others, if_neg chosen]
    · have different : head.id ≠ node.id := by
        intro same
        exact absent (List.mem_map.mpr ⟨node, later, same.symm⟩)
      rw [List.filter_cons_of_neg (by simp [different]), ih unique later]

/-- Shutdown releases each node that it destroys, once. -/
theorem lifecycleEvents_shutdown {bus : HwBus} (running : bus.initialized = true)
    {plugin : Plugin} (listed : plugin ∈ bus.plugins.nodes) :
    lifecycleEvents plugin.id (hwBusShutdown bus) = lifecycleEvents plugin.id bus ++
      if Destroyed plugin then [.release] else [] := by
  rw [hwBusShutdown, if_pos running]
  change lifecycleEvents plugin.id
    (bus.plugins.nodes.foldl shutdownNode { bus with plugins := .empty }) = _
  rw [lifecycleEvents_shutdownNodes, filter_id bus.plugins.unique listed]
  by_cases released : Destroyed plugin
  · simp only [if_pos released]
    rfl
  · simp only [if_neg released]
    rfl

/-- Shutdown releases no plugin that is not listed. -/
theorem lifecycleEvents_shutdown_absent {bus : HwBus} (running : bus.initialized = true)
    {id : CString} (absent : bus.plugins.find id = none) :
    lifecycleEvents id (hwBusShutdown bus) = lifecycleEvents id bus := by
  rw [hwBusShutdown, if_pos running]
  change lifecycleEvents id
    (bus.plugins.nodes.foldl shutdownNode { bus with plugins := .empty }) = _
  have none : (bus.plugins.nodes.filter fun node => Destroyed node ∧ node.id = id) = [] := by
    rw [List.filter_eq_nil_iff]
    intro node member matched
    simp only [decide_eq_true_eq] at matched
    exact PluginTable.find_none.mp absent node member matched.2
  rw [lifecycleEvents_shutdownNodes, none]
  exact (List.append_nil _).trans (lifecycleEvents_congr rfl)

/-! ## Runs -/

/-- No plugin's callbacks broke their alternation yet, and none was called of a plugin that is
not listed. -/
structure Alternating (bus : HwBus) : Prop where
  /-- The callbacks of every plugin alternate. -/
  followed : ∀ id, (follow false (lifecycleEvents id bus)).isSome
  /-- Only listed plugins were called. -/
  listed : ∀ id, bus.plugins.find id = none → lifecycleEvents id bus = []
  /-- The bus is initialised. -/
  running : bus.initialized = true

/-- An operation lists and removes no plugin. -/
theorem find_pluginStep (bus : HwBus) (action : PluginAction) (id : CString) :
    (pluginStep bus action).plugins.find id = none ↔ bus.plugins.find id = none := by
  have written (table : PluginTable) (other : CString) (change : Plugin → Plugin) :
      (table.modify other change).find id = none ↔ table.find id = none := by
    by_cases named : id = other
    · subst named
      cases search : table.find id with
      | none => simp [PluginTable.find_modify_none search]
      | some node => simp [PluginTable.find_modify_self search]
    · rw [PluginTable.find_modify_ne named]
  have stopped (bus : HwBus) (plugin : Plugin) :
      (hwPluginStop bus plugin).plugins.find id = none ↔ bus.plugins.find id = none := by
    unfold hwPluginStop
    dsimp only
    rw [HwBus.setState, written]
    split <;> rfl
  cases action with
  | load other env =>
    simp only [pluginStep, hwBusLoad]
    split
    · rfl
    · split
      · rfl
      · rw [hwPluginStart_plugins, HwBus.setState, written]
  | stop other =>
    simp only [pluginStep, hwBusStop]
    split
    · rfl
    · exact stopped bus _
  | unload other =>
    simp only [pluginStep, hwBusUnload]
    split
    · rfl
    · rename_i plugin _
      simp only [hwPluginUnload]
      rw [written]
      split <;> split
      · exact stopped bus plugin
      · rfl
      · exact stopped bus plugin
      · rfl

/-- An operation leaves the bus initialised as it was. -/
theorem initialized_pluginStep (bus : HwBus) (action : PluginAction) :
    (pluginStep bus action).initialized = bus.initialized := by
  have stopped (bus : HwBus) (plugin : Plugin) :
      (hwPluginStop bus plugin).initialized = bus.initialized := by
    unfold hwPluginStop
    dsimp only
    rw [setState_initialized]
    split <;> rfl
  cases action with
  | load other env =>
    simp only [pluginStep, hwBusLoad]
    split
    · rfl
    · split
      · rfl
      · exact hwPluginStart_initialized env bus _
  | stop other =>
    simp only [pluginStep, hwBusStop]
    split
    · rfl
    · exact stopped bus _
  | unload other =>
    simp only [pluginStep, hwBusUnload]
    split
    · rfl
    · rename_i plugin _
      simp only [hwPluginUnload]
      split <;> split
      · exact stopped bus plugin
      · rfl
      · exact stopped bus plugin
      · rfl

/-- The lifecycle events of an operation: an attempt when a load reaches `init`, a release when
an unload reaches `destroy`. -/
def stepEvents (bus : HwBus) (id : CString) : PluginAction → List Event
  | .load other env => match bus.plugins.find other with
    | none => []
    | some plugin =>
      if plugin.state ≠ .started ∧ Startable bus.metaproto plugin ∧ plugin.ops.init.isSome ∧
          other = id then
        [.acquire (decide (env.initRc plugin.id = hwrunOk))] else []
  | .stop _ => []
  | .unload other => match bus.plugins.find other with
    | none => []
    | some plugin => if plugin.ops.destroy.isSome ∧ other = id then [.release] else []

/-- An operation appends its events. -/
theorem lifecycleEvents_pluginStep (bus : HwBus) (action : PluginAction) (id : CString) :
    lifecycleEvents id (pluginStep bus action) =
      lifecycleEvents id bus ++ stepEvents bus id action := by
  cases action with
  | load other env =>
    simp only [pluginStep, hwBusLoad, stepEvents]
    cases search : bus.plugins.find other with
    | none => simp
    | some plugin =>
      obtain ⟨-, rfl⟩ := PluginTable.find_some search
      by_cases started : plugin.state = .started
      · simp [started]
      · simp only [ne_eq, started, not_false_eq_true, true_and]
        exact lifecycleEvents_start id env bus plugin
  | stop other =>
    simp only [pluginStep, hwBusStop, stepEvents, List.append_nil]
    split
    · rfl
    · exact lifecycleEvents_stop id bus _
  | unload other =>
    simp only [pluginStep, hwBusUnload, stepEvents]
    cases search : bus.plugins.find other with
    | none => simp
    | some plugin =>
      obtain ⟨-, rfl⟩ := PluginTable.find_some search
      exact lifecycleEvents_unload id bus plugin

/-- Further events of a plugin are followed from where its callbacks stand. -/
theorem follow_further {bus : HwBus} (alternating : Alternating bus) (id : CString)
    (events : List Event) :
    follow false (lifecycleEvents id bus ++ events) =
      follow (decide (Initialised bus id)) events := by
  obtain ⟨held, stands⟩ := Option.isSome_iff_exists.mp (alternating.followed id)
  have standing : Initialised bus id ↔ held = true := (follow_getLast stands).symm
  rw [follow_append, stands, Option.bind_some]
  cases held <;> simp [standing]

/-- The events of an operation keep every plugin's callbacks alternating exactly when the
operation is disciplined. -/
theorem follow_stepEvents (bus : HwBus) (action : PluginAction) :
    (∀ id, (follow (decide (Initialised bus id)) (stepEvents bus id action)).isSome) ↔
      Disciplined bus action := by
  cases action with
  | load other env =>
    simp only [stepEvents, Disciplined]
    cases bus.plugins.find other with
    | none => simp [follow]
    | some plugin =>
      simp only [Option.mem_def, Option.some.injEq, forall_eq']
      constructor
      · intro followed idle passed present held
        have attempt := followed other
        rw [if_pos ⟨idle, passed, present, rfl⟩, decide_eq_true held] at attempt
        exact absurd attempt (by simp [follow])
      · intro free id
        split
        · rename_i reached
          obtain ⟨idle, passed, present, rfl⟩ := reached
          rw [decide_eq_false (free idle passed present)]
          simp [follow]
        · simp [follow]
  | stop other => simp [stepEvents, Disciplined, follow]
  | unload other =>
    simp only [stepEvents, Disciplined]
    cases bus.plugins.find other with
    | none => simp [follow]
    | some plugin =>
      simp only [Option.mem_def, Option.some.injEq, forall_eq']
      constructor
      · intro followed present
        have release := followed other
        rw [if_pos ⟨present, rfl⟩] at release
        by_contra missing
        rw [decide_eq_false missing] at release
        exact absurd release (by simp [follow])
      · intro held id
        split
        · rename_i reached
          obtain ⟨present, rfl⟩ := reached
          rw [decide_eq_true (held present)]
          simp [follow]
        · simp [follow]

/-- A plugin that is not listed takes part in no operation. -/
theorem stepEvents_absent {bus : HwBus} {id : CString} (absent : bus.plugins.find id = none)
    (action : PluginAction) : stepEvents bus id action = [] := by
  cases action with
  | load other env =>
    simp only [stepEvents]
    split
    · rfl
    · rename_i plugin search
      refine if_neg ?_
      rintro ⟨-, -, -, rfl⟩
      rw [absent] at search
      cases search
  | stop other => rfl
  | unload other =>
    simp only [stepEvents]
    split
    · rfl
    · rename_i plugin search
      refine if_neg ?_
      rintro ⟨-, rfl⟩
      rw [absent] at search
      cases search

/-- A disciplined operation keeps the callbacks alternating. -/
theorem Alternating.step {bus : HwBus} {action : PluginAction} (alternating : Alternating bus)
    (disciplined : Disciplined bus action) : Alternating (pluginStep bus action) where
  followed := by
    intro id
    rw [lifecycleEvents_pluginStep, follow_further alternating]
    exact (follow_stepEvents bus action).mpr disciplined id
  listed := by
    intro id absent
    rw [find_pluginStep] at absent
    rw [lifecycleEvents_pluginStep, alternating.listed id absent, stepEvents_absent absent]
    rfl
  running := by rw [initialized_pluginStep, alternating.running]

/-- Some plugin's callbacks broke their alternation. -/
def LifecycleBroken (bus : HwBus) : Prop := ∃ id, follow false (lifecycleEvents id bus) = none

/-- An operation that is not disciplined breaks the alternation. -/
theorem Alternating.step_broken {bus : HwBus} {action : PluginAction}
    (alternating : Alternating bus) (undisciplined : ¬ Disciplined bus action) :
    LifecycleBroken (pluginStep bus action) := by
  rw [← follow_stepEvents] at undisciplined
  obtain ⟨id, broken⟩ := not_forall.mp undisciplined
  refine ⟨id, ?_⟩
  rw [lifecycleEvents_pluginStep, follow_further alternating]
  exact Option.not_isSome_iff_eq_none.mp broken

/-- No later operation mends a broken alternation. -/
theorem LifecycleBroken.run {bus : HwBus} (broken : LifecycleBroken bus)
    (actions : List PluginAction) : LifecycleBroken (run pluginStep bus actions) := by
  refine run_invariant LifecycleBroken ?_ broken actions
  rintro state action ⟨id, lost⟩
  refine ⟨id, ?_⟩
  rw [lifecycleEvents_pluginStep, follow_append, lost]
  rfl

/-- The shutdown does not mend a broken alternation. -/
theorem LifecycleBroken.shutdown {bus : HwBus} (running : bus.initialized = true)
    (broken : LifecycleBroken bus) : ¬ LifecycleObeyed (hwBusShutdown bus) := by
  obtain ⟨id, lost⟩ := broken
  intro obeyed
  have ended := obeyed id
  cases search : bus.plugins.find id with
  | none =>
    rw [lifecycleEvents_shutdown_absent running search, lost] at ended
    cases ended
  | some plugin =>
    obtain ⟨listed, rfl⟩ := PluginTable.find_some search
    rw [lifecycleEvents_shutdown running listed, follow_append, lost] at ended
    cases ended

/-- While the callbacks alternate, the shutdown ends the lifecycle of every plugin exactly when
it destroys the plugins that are initialised. -/
theorem Alternating.shutdown {bus : HwBus} (alternating : Alternating bus) :
    LifecycleObeyed (hwBusShutdown bus) ↔ ShutdownDisciplined bus := by
  have ended {plugin : Plugin} (listed : plugin ∈ bus.plugins.nodes) :
      follow false (lifecycleEvents plugin.id (hwBusShutdown bus)) = some false ↔
        (Destroyed plugin ↔ Initialised bus plugin.id) := by
    rw [lifecycleEvents_shutdown alternating.running listed, follow_further alternating]
    by_cases released : Destroyed plugin <;> by_cases held : Initialised bus plugin.id <;>
      simp [released, held, follow]
  constructor
  · intro obeyed plugin listed
    exact (ended listed).mp (obeyed plugin.id)
  · intro disciplined id
    cases search : bus.plugins.find id with
    | none =>
      rw [lifecycleEvents_shutdown_absent alternating.running search,
        alternating.listed id search]
      rfl
    | some plugin =>
      obtain ⟨listed, rfl⟩ := PluginTable.find_some search
      exact (ended listed).mpr (disciplined plugin listed)

/-- A bus whose plugins were not called yet. -/
theorem alternating_quiet {bus : HwBus} (running : bus.initialized = true)
    (quiet : bus.calls = []) : Alternating bus where
  followed := by
    intro id
    rw [lifecycleEvents, quiet]
    rfl
  listed := by
    intro id _
    rw [lifecycleEvents, quiet]
    rfl
  running := running

/-- From a bus whose plugins were not called yet, loads, stops and unloads in any order and a
final shutdown obey the lifecycle of every plugin exactly when no load reaches `init` of an
initialised plugin, no unload reaches `destroy` of one that is not initialised, and the shutdown
finds exactly the initialised plugins started or loaded. -/
theorem lifecycle_obeyed_iff {bus : HwBus} (running : bus.initialized = true)
    (quiet : bus.calls = []) (actions : List PluginAction) :
    LifecycleObeyed (hwBusShutdown (run pluginStep bus actions)) ↔
      AllSteps pluginStep Disciplined bus actions ∧
        ShutdownDisciplined (run pluginStep bus actions) := by
  have initial := alternating_quiet running quiet
  clear running quiet
  induction actions generalizing bus with
  | nil => simpa [AllSteps] using initial.shutdown
  | cons action rest ih =>
    rw [run_cons, AllSteps]
    by_cases disciplined : Disciplined bus action
    · refine (ih (initial.step disciplined)).trans ?_
      simp only [disciplined, true_and]
    · simp only [disciplined, false_and, iff_false]
      refine ((initial.step_broken disciplined).run rest).shutdown ?_
      exact run_invariant (fun state : HwBus => state.initialized = true)
        (fun state action before => by rw [initialized_pluginStep, before])
        (by rw [initialized_pluginStep, initial.running]) rest

/-- A loaded plugin with all its callbacks that requires LOG. -/
def managedPlugin : Plugin where
  id := lit "hap"
  state := .installed
  provides := some [lit "HAP"]
  requires := some [lit "LOG"]
  conflicts := none
  files := none
  ops := { init := some 1, start := some 2, stop := some 3, destroy := some 4 }
  handle := some 5
  loadTime := 0
  runtimeBind := none

/-- An initialised bus that lists it. -/
def managedBus : HwBus where
  plugins := PluginTable.empty.insert managedPlugin (by intro other listed; cases listed)
  metaproto := hwBusInit.metaproto
  initialized := true
  calls := []

/-- A plugin whose `init` fails. -/
def failingEnv : Env := { willingEnv with initRc := fun _ => hwrunEinval }

/-- A failing load, a load that succeeds and the shutdown obey the lifecycle. -/
theorem lifecycle_obeyed_load :
    LifecycleObeyed (hwBusShutdown (run pluginStep managedBus
      [.load (lit "hap") failingEnv, .load (lit "hap") willingEnv])) :=
  have running : managedBus.initialized = true := rfl
  (lifecycle_obeyed_iff running rfl _).mpr (by decide +kernel)

/-- A plugin that was stopped is never destroyed, one that is loaded again is initialised twice,
and one that was not loaded is destroyed by an unload. -/
theorem lifecycle_disobeyed :
    ¬ LifecycleObeyed (hwBusShutdown (run pluginStep managedBus
        [.load (lit "hap") willingEnv, .stop (lit "hap")])) ∧
      ¬ LifecycleObeyed (hwBusShutdown (run pluginStep managedBus
        [.load (lit "hap") willingEnv, .stop (lit "hap"), .load (lit "hap") willingEnv])) ∧
      ¬ LifecycleObeyed (hwBusShutdown (run pluginStep managedBus [.unload (lit "hap")])) := by
  refine ⟨fun obeyed => ?_, fun obeyed => ?_, fun obeyed => ?_⟩
  all_goals
    have ended := obeyed (lit "hap")
    revert ended
    decide +kernel

end HwrunOs.Bus
