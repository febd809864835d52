import HwrunOs.Bus.Configure
import HwrunOs.Param.Concurrent

/-!
# What plugins are told by concurrent sets

The router is one of the watchers that concurrent calls of `hw_param_set_value` tell, so the value
that `configure` got last need not be the one in the tree. Both are the value of the call that came
last, in telling the one and in writing the other.
-/

namespace HwrunOs.Bus

open HwrunOs.Bytes HwrunOs.Runs HwrunOs.Param

variable (fnmatch : CString → CString → Bool) (key : CString) (calls : List KeyCall)

/-- The calls of `configure` that the calls of watchers led to. -/
def raceConfigured (plugins : PluginTable) (race : SetRace WatchCallback) : List ConfigureCall :=
  configureCalls plugins (race.told.map Told.delivery)

/-- The calls made on a key from a state, in some order of their steps. -/
def setRace (state : ConfigBus) (schedule : List Nat) : SetRace WatchCallback :=
  run (setStep fnmatch key calls) (SetRace.start state.params) schedule

/-- Every matching watcher was told last the value that the tree has, and `configure` got it
last. -/
def ToldStored (state : ConfigBus) (race : SetRace WatchCallback) : Prop :=
  (∀ watcher ∈ state.params.watchers, Watcher.matches fnmatch key watcher = true →
    ∀ told ∈ race.lastTold watcher.onChange,
      hwParamGet race.context.root key = readBack told.delivery.newValue) ∧
  ∀ last ∈ (raceConfigured state.bus.plugins race).getLast?,
    hwParamGet race.context.root key = readBack last.value

/-- What the tree holds and what was told when all calls have returned. -/
structure SetsSettled (state : ConfigBus) (race : SetRace WatchCallback) : Prop where
  /-- The tree has the value of the call that wrote it last, or its old one. -/
  stored : hwParamGet race.context.root key =
    match race.updates.getLast? with
    | none => hwParamGet state.params.root key
    | some call => (valueOf calls call).bind readBack
  /-- Every call that wrote the tree told every watcher of the snapshot its value, each once. -/
  told : ∀ call ∈ race.updates, ∃ oldValue passed, valueOf calls call = some passed ∧
    race.toldBy call = (snapshot fnmatch key state.params.watchers).map fun callback =>
      ⟨callback, key, oldValue, passed⟩
  /-- If one did, every watcher of the snapshot was told last the value of such a call. -/
  last : race.updates ≠ [] → ∀ callback ∈ snapshot fnmatch key state.params.watchers,
    ∃ told, race.lastTold callback = some told ∧ told.call ∈ race.updates ∧
      valueOf calls told.call = some told.delivery.newValue
  /-- That value is the one of the tree if the call is the one that wrote it last. -/
  agree : ∀ callback told, race.lastTold callback = some told →
    race.updates.getLast? = some told.call →
    hwParamGet race.context.root key = readBack told.delivery.newValue
  /-- The plugin that the key names, if it is running and can be configured, got last what the
  router was told last. -/
  configured : ∀ plugin ∈ state.bus.plugins.nodes, plugin.id = firstPart key →
    Configurable plugin → (raceConfigured state.bus.plugins race).getLast? =
      (race.lastTold .configRoute).map fun told => ⟨plugin.id, key, told.delivery.newValue⟩

variable {fnmatch key calls}

/-- Telling watchers about a key calls `configure` of its plugin for the router only. -/
theorem configureCalls_told {plugins : PluginTable} (named : Named plugins) {plugin : Plugin}
    (listed : plugin ∈ plugins.nodes) (first : plugin.id = firstPart key)
    (running : Configurable plugin) {told : List (Told WatchCallback)}
    (keyed : ∀ one ∈ told, one.delivery.key = key) :
    configureCalls plugins (told.map Told.delivery) =
      (told.filter fun one => one.delivery.callback = .configRoute).map fun one =>
        ⟨plugin.id, key, one.delivery.newValue⟩ := by
  induction told with
  | nil => rfl
  | cons one rest ih =>
    have later := ih fun other among => keyed other (List.mem_cons_of_mem _ among)
    have own := keyed one List.mem_cons_self
    unfold configureCalls at later ⊢
    rw [List.map_cons, List.flatMap_cons, later]
    cases callback : one.delivery.callback with
    | configRoute =>
      rw [List.filter_cons_of_pos (by simp [callback]), own,
        configRouteCb_named named listed first, if_pos running]
      rfl
    | plugin address userdata =>
      rw [List.filter_cons_of_neg (by simp [callback])]
      rfl

/-- Every state of a run has named plugins. -/
theorem named_run (actions : List ConfigAction) :
    Named (run (configStep fnmatch) configInit actions).bus.plugins :=
  run_invariant (fun state : ConfigBus => Named state.bus.plugins)
    (fun _ action named => named_configStep fnmatch named action)
    (show Named configInit.bus.plugins from fun _ listed => absurd listed List.not_mem_nil) actions

/-- In every order of the steps of concurrent sets of a key, from every state of the bus: once all
have returned, the tree has the value of the call that wrote it last, every watcher of the snapshot
was told last the value of the call that told it last, `configure` got what the router was told,
and the values agree where the call is the same. -/
theorem concurrent_sets_settled (actions : List ConfigAction) (schedule : List Nat)
    (finished : AllReturned calls
      (setRace fnmatch key calls (run (configStep fnmatch) configInit actions) schedule)) :
    SetsSettled fnmatch key calls (run (configStep fnmatch) configInit actions)
      (setRace fnmatch key calls (run (configStep fnmatch) configInit actions) schedule) := by
  have named := @named_run fnmatch actions
  generalize run (configStep fnmatch) configInit actions = state at *
  have sound : SetSound fnmatch key calls state.params (setRace fnmatch key calls state schedule) :=
    setSound_run state.params schedule
  generalize setRace fnmatch key calls state schedule = race at *
  constructor
  · exact sound.stored
  · intro call updated
    exact sound.tells finished updated
  · intro some callback listed
    obtain ⟨told, last⟩ := sound.lastTold_isSome finished listed some
    obtain ⟨updated, valued, -⟩ := sound.origin (lastTold_some last).1
    exact ⟨told, last, updated, valued⟩
  · intro callback told last wrote
    exact sound.agrees last wrote
  · intro plugin listed first running
    have keyed : ∀ one ∈ race.told, one.delivery.key = key :=
      fun one among => (sound.origin among).2.2
    rw [raceConfigured, configureCalls_told named listed first running keyed, List.getLast?_map]
    rfl

/-- One boot chain with a plugin that can be configured. -/
def bootedOnce : List ConfigAction :=
  [.scan [tunedDiscovery], .loadSo (lit "hap") tunedDl, .bootChain [] willingEnv true]

/-- Two calls with different values. -/
def twoCalls : List KeyCall :=
  [⟨some (lit "1"), fun _ => true⟩, ⟨some (lit "2"), fun _ => true⟩]

/-- Two calls one after the other leave what was told and what is stored settled. -/
theorem concurrent_sets_settled_two :
    SetsSettled (fun _ _ => false) (lit "hap.mode") twoCalls
      (run (configStep fun _ _ => false) configInit bootedOnce)
      (setRace (fun _ _ => false) (lit "hap.mode") twoCalls
        (run (configStep fun _ _ => false) configInit bootedOnce) [0, 0, 0, 0, 1, 1, 1, 1]) :=
  concurrent_sets_settled bootedOnce [0, 0, 0, 0, 1, 1, 1, 1] (by decide +kernel)

/-- The second call writes and tells between the two critical sections of the first: the tree has
its value, and the router was told the other one last. -/
theorem late_notify_disagrees : ¬ ∀ fnmatch key calls actions schedule,
    AllReturned calls
      (setRace fnmatch key calls (run (configStep fnmatch) configInit actions) schedule) →
    ToldStored fnmatch key (run (configStep fnmatch) configInit actions)
      (setRace fnmatch key calls (run (configStep fnmatch) configInit actions) schedule) := by
  intro claim
  have settled := claim (fun _ _ => false) (lit "hap.mode") twoCalls bootedOnce
    [0, 1, 1, 1, 1, 0, 0, 0] (by decide +kernel)
  have differs : ∃ last ∈ (raceConfigured
      (run (configStep fun _ _ => false) configInit bootedOnce).bus.plugins
      (setRace (fun _ _ => false) (lit "hap.mode") twoCalls
        (run (configStep fun _ _ => false) configInit bootedOnce)
        [0, 1, 1, 1, 1, 0, 0, 0])).getLast?,
      hwParamGet (setRace (fun _ _ => false) (lit "hap.mode") twoCalls
        (run (configStep fun _ _ => false) configInit bootedOnce)
        [0, 1, 1, 1, 1, 0, 0, 0]).context.root (lit "hap.mode") ≠ readBack last.value := by
    decide +kernel
  obtain ⟨last, member, different⟩ := differs
  exact different (settled.2 last member)

end HwrunOs.Bus
