import Mathlib.Logic.Function.Basic
import HwrunOs.Param.Notify

/-!
# Concurrent sets of one key

`hw_param_set_value` writes the tree in one critical section and takes its snapshot of the watchers
in another; the watchers are called outside of both. The steps of concurrent calls come in any
order, so the call that writes the tree last need not be the one that tells a watcher last. What
every watcher was told and what the tree holds is stated for all orders of the steps.
-/

namespace HwrunOs.Param

open HwrunOs.Bytes HwrunOs.Trees HwrunOs.Runs

/-! ## The steps -/

/-- A call of `hw_param_set_value` on the key. -/
structure KeyCall where
  /-- The value, or a null pointer. -/
  value : Option CString
  /-- Whether the creation of a node has memory, by depth. -/
  alloc : Nat → Bool

/-- Where a call stands between its steps. -/
inductive SetPhase (γ : Type) where
  /-- It has not started. -/
  | idle
  /-- It wrote the tree, over an old value. -/
  | written (oldValue : Option CString) (value : CString)
  /-- It has its snapshot, and these callbacks are still to be called. -/
  | telling (oldValue : Option CString) (value : CString) (rest : List γ)
  /-- It returned. -/
  | returned (rc : Int)

/-- A call of a watcher, with the call of `hw_param_set_value` that made it. -/
structure Told (γ : Type) where
  /-- The call that tells. -/
  call : Nat
  /-- What it passes on. -/
  delivery : Delivery γ

/-- The context, the calls under way, and what was done in which order. -/
structure SetRace (γ : Type) where
  /-- Tree and watchers. -/
  context : ParamContext γ
  /-- Where each call stands. -/
  phases : Nat → SetPhase γ
  /-- The calls that wrote the tree, oldest first. -/
  updates : List Nat
  /-- The calls of watchers, oldest first. -/
  told : List (Told γ)

variable {γ : Type} (fnmatch : CString → CString → Bool) (key : CString) (calls : List KeyCall)

/-- Nothing is under way. -/
def SetRace.start (context : ParamContext γ) : SetRace γ := ⟨context, fun _ => .idle, [], []⟩

/-- A call goes on. -/
def SetRace.become (race : SetRace γ) (call : Nat) (phase : SetPhase γ) : SetRace γ :=
  { race with phases := Function.update race.phases call phase }

/-- A watcher is called. -/
def SetRace.tell (race : SetRace γ) (told : Told γ) : SetRace γ :=
  { race with told := race.told ++ [told] }

/-- The first critical section: the old value is read and the tree is written. -/
def writeStep (race : SetRace γ) (call : Nat) (args : KeyCall) : SetRace γ :=
  let (root, rc) := hwParamSet race.context.root (some key) args.value args.alloc
  let written := { race with context := { race.context with root := root } }
  match args.value with
  | some value =>
    if rc = hwrunOk then
      { written.become call (.written (hwParamGet race.context.root key) value) with
        updates := race.updates ++ [call] }
    else written.become call (.returned rc)
  | none => written.become call (.returned rc)

/-- The next step of one of the calls. -/
def setStep (race : SetRace γ) (call : Nat) : SetRace γ :=
  match calls[call]? with
  | none => race
  | some args => match race.phases call with
    | .idle => writeStep key race call args
    | .written oldValue value =>
      race.become call
        (.telling oldValue value (snapshot fnmatch key race.context.watchers))
    | .telling _ _ [] => race.become call (.returned hwrunOk)
    | .telling oldValue value (callback :: rest) =>
      (race.become call (.telling oldValue value rest)).tell
        ⟨call, ⟨callback, key, oldValue, value⟩⟩
    | .returned _ => race

/-- The call is over. -/
def SetPhase.isReturned : SetPhase γ → Bool
  | .returned _ => true
  | _ => false

/-- All calls have returned. -/
def AllReturned (race : SetRace γ) : Prop :=
  ∀ call < calls.length, (race.phases call).isReturned = true

instance (race : SetRace γ) : Decidable (AllReturned calls race) :=
  inferInstanceAs (Decidable (∀ call < calls.length, _))

/-- The value of a call. -/
def valueOf (call : Nat) : Option CString := calls[call]?.bind KeyCall.value

/-- What one call told the watchers, in order. -/
def SetRace.toldBy (race : SetRace γ) (call : Nat) : List (Delivery γ) :=
  (race.told.filter fun told => told.call = call).map Told.delivery

/-- What a watcher was told last. -/
def SetRace.lastTold [DecidableEq γ] (race : SetRace γ) (callback : γ) : Option (Told γ) :=
  (race.told.filter fun told => told.delivery.callback = callback).getLast?

/-- A value as the tree gives it back: cut to the field, and none if it is empty. -/
def readBack (value : CString) : Option CString :=
  if snprintf 256 value = [] then none else some (snprintf 256 value)

/-! ## One call alone -/

/-- The value of a key after a successful set. -/
theorem hwParamGet_set {tree : ParamTree} {value : CString} {alloc : Nat → Bool}
    (success : (hwParamSet tree (some key) (some value) alloc).2 = hwrunOk) :
    hwParamGet (hwParamSet tree (some key) (some value) alloc).1 key = readBack value := by
  have done : (insert [] (snprintf 256 value) (keyParts key) alloc tree).2 = true := by
    by_contra failed
    simp only [hwParamSet, if_neg failed] at success
    exact absurd success (by decide)
  have stored : lookup [] (keyParts key)
      (hwParamSet tree (some key) (some value) alloc).1 = snprintf 256 value := by
    show lookup [] (keyParts key) (insert _ _ _ _ _).1 = _
    rw [lookup_insert, if_pos ⟨rfl, done⟩]
  simp only [hwParamGet_eq, stored, readBack]

/-- A failing set leaves the value of every key. -/
theorem hwParamGet_failed {tree : ParamTree} {value : Option CString} {alloc : Nat → Bool}
    (failed : (hwParamSet tree (some key) value alloc).2 ≠ hwrunOk) (other : CString) :
    hwParamGet (hwParamSet tree (some key) value alloc).1 other = hwParamGet tree other := by
  cases value with
  | none => rfl
  | some value =>
    have undone : ¬ (insert [] (snprintf 256 value) (keyParts key) alloc tree).2 = true := by
      intro done
      simp only [hwParamSet, if_pos done] at failed
      exact failed rfl
    have kept : lookup [] (keyParts other) (hwParamSet tree (some key) (some value) alloc).1 =
        lookup [] (keyParts other) tree := by
      show lookup [] (keyParts other) (insert _ _ _ _ _).1 = _
      rw [lookup_insert, if_neg fun both => undone both.2]
    simp only [hwParamGet_eq, kept]

/-- A call that has returned does nothing more. -/
theorem run_returned {race : SetRace γ} {call : Nat} {rc : Int}
    (returned : race.phases call = .returned rc) (steps : Nat) :
    run (setStep fnmatch key calls) race (List.replicate steps call) = race := by
  induction steps with
  | zero => rfl
  | succ steps ih =>
    have still : setStep fnmatch key calls race call = race := by
      unfold setStep
      split
      · rfl
      · rw [returned]
    rw [List.replicate_succ, run_cons, still, ih]

/-- A call that is not interrupted calls the rest of its snapshot and returns. -/
theorem run_telling {race : SetRace γ} {call : Nat} (mine : call < calls.length)
    {oldValue : Option CString} {value : CString} {rest : List γ}
    (here : race.phases call = .telling oldValue value rest) :
    let after := run (setStep fnmatch key calls) race (List.replicate (rest.length + 1) call)
    after.context = race.context ∧ after.phases call = .returned hwrunOk ∧
      after.told = race.told ++ rest.map fun callback =>
        ⟨call, ⟨callback, key, oldValue, value⟩⟩ := by
  have own := List.getElem?_eq_getElem mine
  induction rest generalizing race with
  | nil =>
    have step : setStep fnmatch key calls race call = race.become call (.returned hwrunOk) := by
      simp only [setStep, own, here]
    simp [List.replicate_succ, step, SetRace.become]
  | cons callback rest ih =>
    have step : setStep fnmatch key calls race call =
        (race.become call (.telling oldValue value rest)).tell
          ⟨call, ⟨callback, key, oldValue, value⟩⟩ := by
      simp only [setStep, own, here]
    have next : (setStep fnmatch key calls race call).phases call =
        .telling oldValue value rest := by
      rw [step]
      exact Function.update_self _ _ _
    obtain ⟨context, returned, told⟩ := ih next
    rw [List.length_cons, List.replicate_succ, run_cons]
    refine ⟨?_, returned, ?_⟩
    · rw [context, step]
      rfl
    · rw [told, step]
      simp [SetRace.tell, SetRace.become]

/-- A call that is not interrupted does what `hw_param_set_value` does: it returns, the context is
the same, and so are the calls of watchers. -/
theorem run_alone {race : SetRace γ} {call : Nat} {args : KeyCall}
    (mine : calls[call]? = some args) (idle : race.phases call = .idle) :
    let after := run (setStep fnmatch key calls) race
      (List.replicate (3 + (snapshot fnmatch key race.context.watchers).length) call)
    let alone := hwParamSetValue fnmatch race.context ⟨some key, args.value, args.alloc⟩
    after.context = alone.1 ∧ after.phases call = .returned alone.2.1 ∧
      after.told = race.told ++ alone.2.2.map fun delivery => ⟨call, delivery⟩ := by
  obtain ⟨listed, own⟩ := List.getElem?_eq_some_iff.mp mine
  have first : setStep fnmatch key calls race call = writeStep key race call args := by
    simp only [setStep, mine, idle]
  have more : 3 + (snapshot fnmatch key race.context.watchers).length =
      (2 + (snapshot fnmatch key race.context.watchers).length) + 1 := by omega
  rw [more, List.replicate_succ, run_cons, first]
  -- A set that fails is over after the first step.
  have refused (failed : writeStep key race call args =
      ({ race with context := { race.context with
          root := (hwParamSet race.context.root (some key) args.value args.alloc).1 } } :
        SetRace γ).become call
          (.returned (hwParamSet race.context.root (some key) args.value args.alloc).2))
      (silent : (hwParamSetValue fnmatch race.context
        ⟨some key, args.value, args.alloc⟩).2.2 = []) :
      let after := run (setStep fnmatch key calls) (writeStep key race call args)
        (List.replicate (2 + (snapshot fnmatch key race.context.watchers).length) call)
      let alone := hwParamSetValue fnmatch race.context ⟨some key, args.value, args.alloc⟩
      after.context = alone.1 ∧ after.phases call = .returned alone.2.1 ∧
        after.told = race.told ++ alone.2.2.map fun delivery => ⟨call, delivery⟩ := by
    have ended : (writeStep key race call args).phases call = .returned
        (hwParamSet race.context.root (some key) args.value args.alloc).2 := by
      rw [failed]
      exact Function.update_self _ _ _
    dsimp only
    rw [run_returned fnmatch key calls ended, silent, ended, failed]
    exact ⟨rfl, rfl, (List.append_nil _).symm⟩
  cases valued : args.value with
  | none =>
    rw [valued] at refused
    apply refused
    · simp only [writeStep, valued]
    · rfl
  | some value =>
    rw [valued] at refused
    by_cases success :
        (hwParamSet race.context.root (some key) (some value) args.alloc).2 = hwrunOk
    · have wrote : (writeStep key race call args).phases call =
          .written (hwParamGet race.context.root key) value := by
        simp only [writeStep, valued, if_pos success]
        exact Function.update_self _ _ _
      have context : (writeStep key race call args).context =
          { race.context with
            root := (hwParamSet race.context.root (some key) (some value) args.alloc).1 } := by
        simp only [writeStep, valued, if_pos success]
        rfl
      have told : (writeStep key race call args).told = race.told := by
        simp only [writeStep, valued, if_pos success]
        rfl
      have second : setStep fnmatch key calls (writeStep key race call args) call =
          (writeStep key race call args).become call
            (.telling (hwParamGet race.context.root key) value
              (snapshot fnmatch key race.context.watchers)) := by
        simp only [setStep, mine, wrote, context]
      have next : 2 + (snapshot fnmatch key race.context.watchers).length =
          ((snapshot fnmatch key race.context.watchers).length + 1) + 1 := by omega
      rw [next, List.replicate_succ, run_cons, second]
      have here : ((writeStep key race call args).become call
          (.telling (hwParamGet race.context.root key) value
            (snapshot fnmatch key race.context.watchers))).phases call =
          .telling (hwParamGet race.context.root key) value
            (snapshot fnmatch key race.context.watchers) := Function.update_self _ _ _
      obtain ⟨after, returned, calledBack⟩ := run_telling fnmatch key calls listed here
      have alone : hwParamSetValue fnmatch race.context ⟨some key, some value, args.alloc⟩ =
          ({ race.context with
              root := (hwParamSet race.context.root (some key) (some value) args.alloc).1 },
            hwrunOk, (snapshot fnmatch key race.context.watchers).map fun callback =>
              ⟨callback, key, hwParamGet race.context.root key, value⟩) := by
        simp only [hwParamSetValue, success, if_true]
        rfl
      refine ⟨?_, ?_, ?_⟩
      · rw [after, alone]
        exact context
      · rw [returned, alone]
      · rw [calledBack, alone, List.map_map]
        exact congrArg (· ++ _) told
    · apply refused
      · simp only [writeStep, valued, if_neg success]
      · simp only [hwParamSetValue, if_neg success]

/-! ## What every order of the steps keeps -/

/-- A call wrote its value and told some callbacks. -/
def Tells (value : Option CString) (updated : Prop) (told : List (Delivery γ))
    (oldValue : Option CString) (passed : CString) (callbacks : List γ) : Prop :=
  value = some passed ∧ updated ∧
    told = callbacks.map fun callback => ⟨callback, key, oldValue, passed⟩

/-- What a call did so far, by where it stands. -/
def PhaseSound (snap : List γ) (value : Option CString) (updated : Prop)
    (told : List (Delivery γ)) : SetPhase γ → Prop
  | .idle => ¬ updated ∧ told = []
  | .written oldValue passed => Tells key value updated told oldValue passed []
  | .telling oldValue passed rest =>
    ∃ callbacks, snap = callbacks ++ rest ∧ Tells key value updated told oldValue passed callbacks
  | .returned rc => (rc ≠ hwrunOk ∧ ¬ updated ∧ told = []) ∨
    (rc = hwrunOk ∧ ∃ oldValue passed, Tells key value updated told oldValue passed snap)

/-- What holds between the steps. -/
structure SetSound (context : ParamContext γ) (race : SetRace γ) : Prop where
  /-- The watchers are the same. -/
  watchers : race.context.watchers = context.watchers
  /-- The tree has the value of the call that wrote it last. -/
  stored : hwParamGet race.context.root key =
    match race.updates.getLast? with
    | none => hwParamGet context.root key
    | some call => (valueOf calls call).bind readBack
  /-- No call wrote the tree twice. -/
  once : race.updates.Nodup
  /-- Every call did what its phase says. -/
  phase : ∀ call, PhaseSound key (snapshot fnmatch key context.watchers) (valueOf calls call)
    (call ∈ race.updates) (race.toldBy call) (race.phases call)

variable {fnmatch key calls}

/-- A call that goes on without writing or telling changes only its phase. -/
theorem SetSound.become {context : ParamContext γ} {race : SetRace γ}
    (sound : SetSound fnmatch key calls context race) {call : Nat} {phase : SetPhase γ}
    (own : PhaseSound key (snapshot fnmatch key context.watchers) (valueOf calls call)
      (call ∈ race.updates) (race.toldBy call) phase) :
    SetSound fnmatch key calls context (race.become call phase) := by
  refine ⟨sound.watchers, sound.stored, sound.once, ?_⟩
  intro other
  by_cases same : other = call
  · subst same
    show PhaseSound _ _ _ _ _ (Function.update race.phases other phase other)
    rw [Function.update_self]
    exact own
  · show PhaseSound _ _ _ _ _ (Function.update race.phases call phase other)
    rw [Function.update_of_ne same]
    exact sound.phase other

/-- Telling adds to what the call itself told. -/
theorem toldBy_tell (race : SetRace γ) (call other : Nat) (delivery : Delivery γ) :
    (race.tell ⟨call, delivery⟩).toldBy other =
      race.toldBy other ++ if other = call then [delivery] else [] := by
  by_cases same : other = call
  · simp [SetRace.toldBy, SetRace.tell, List.filter_append, same]
  · have others : ¬ call = other := fun equal => same equal.symm
    simp [SetRace.toldBy, SetRace.tell, List.filter_append, same, others]

/-- The first critical section keeps what holds. -/
theorem SetSound.write {context : ParamContext γ} {race : SetRace γ}
    (sound : SetSound fnmatch key calls context race) {call : Nat} {args : KeyCall}
    (mine : calls[call]? = some args) (idle : race.phases call = .idle) :
    SetSound fnmatch key calls context (writeStep key race call args) := by
  have fresh := sound.phase call
  rw [idle] at fresh
  have value : valueOf calls call = args.value := by simp [valueOf, mine]
  have refused (failed : (hwParamSet race.context.root (some key) args.value args.alloc).2 ≠
      hwrunOk) : SetSound fnmatch key calls context
        (({ race with context := { race.context with
            root := (hwParamSet race.context.root (some key) args.value args.alloc).1 } }
          : SetRace γ).become call
            (.returned (hwParamSet race.context.root (some key) args.value args.alloc).2)) := by
    apply SetSound.become
    · refine ⟨sound.watchers, ?_, sound.once, sound.phase⟩
      show hwParamGet (hwParamSet _ _ _ _).1 key = _
      rw [hwParamGet_failed key failed]
      exact sound.stored
    · exact .inl ⟨failed, fresh⟩
  unfold writeStep
  dsimp only
  split
  · rename_i passed valued
    rw [valued] at refused value
    split
    · rename_i success
      refine ⟨sound.watchers, ?_, ?_, ?_⟩
      · show hwParamGet (hwParamSet _ _ _ _).1 key = match (race.updates ++ [call]).getLast? with
          | none => hwParamGet context.root key
          | some call => (valueOf calls call).bind readBack
        rw [valued] at success ⊢
        rw [hwParamGet_set key success, List.getLast?_append, List.getLast?_singleton]
        simp [value]
      · show (race.updates ++ [call]).Nodup
        refine List.nodup_append.mpr ⟨sound.once, by simp, ?_⟩
        intro other before last new same
        rw [List.mem_singleton.mp new] at same
        exact fresh.1 (same ▸ before)
      · intro other
        by_cases same : other = call
        · subst same
          show PhaseSound _ _ _ _ _ (Function.update race.phases other _ other)
          rw [Function.update_self]
          exact ⟨value, by simp, fresh.2⟩
        · show PhaseSound _ _ _ (other ∈ race.updates ++ [call]) _
            (Function.update race.phases call _ other)
          rw [Function.update_of_ne same]
          have listed : (other ∈ race.updates ++ [call]) = (other ∈ race.updates) := by
            simp [same]
          rw [listed]
          exact sound.phase other
    · rename_i failed
      rw [valued] at failed ⊢
      exact refused failed
  · rename_i valued
    rw [valued] at refused ⊢
    exact refused (show hwrunEinval ≠ hwrunOk by decide)

/-- Every step keeps what holds. -/
theorem SetSound.step {context : ParamContext γ} {race : SetRace γ}
    (sound : SetSound fnmatch key calls context race) (call : Nat) :
    SetSound fnmatch key calls context (setStep fnmatch key calls race call) := by
  unfold setStep
  split
  · exact sound
  · rename_i args mine
    have own := sound.phase call
    split
    · rename_i idle
      exact sound.write mine idle
    · rename_i oldValue value here
      rw [here] at own
      apply sound.become
      exact ⟨[], by rw [sound.watchers, List.nil_append], own⟩
    · rename_i oldValue value here
      rw [here] at own
      obtain ⟨callbacks, whole, tells⟩ := own
      rw [List.append_nil] at whole
      apply sound.become
      exact .inr ⟨rfl, oldValue, value, whole ▸ tells⟩
    · rename_i oldValue value callback rest here
      rw [here] at own
      obtain ⟨callbacks, whole, valued, updated, told⟩ := own
      refine ⟨sound.watchers, sound.stored, sound.once, ?_⟩
      intro other
      have grown := toldBy_tell (race.become call (.telling oldValue value rest)) call other
        ⟨callback, key, oldValue, value⟩
      by_cases same : other = call
      · subst same
        show PhaseSound _ _ _ _ _ (Function.update race.phases other _ other)
        rw [Function.update_self, grown, if_pos rfl]
        refine ⟨callbacks ++ [callback], by simp [whole], valued, updated, ?_⟩
        rw [List.map_append, ← told]
        rfl
      · show PhaseSound _ _ _ _ _ (Function.update race.phases call _ other)
        rw [Function.update_of_ne same, grown, if_neg same, List.append_nil]
        exact sound.phase other
    · exact sound

/-- At first nothing was done. -/
theorem setSound_start (context : ParamContext γ) :
    SetSound fnmatch key calls context (SetRace.start context) :=
  ⟨rfl, rfl, List.nodup_nil, fun _ => ⟨List.not_mem_nil, rfl⟩⟩

/-- What holds after every order of the steps. -/
theorem setSound_run (context : ParamContext γ) (schedule : List Nat) :
    SetSound fnmatch key calls context
      (run (setStep fnmatch key calls) (SetRace.start context) schedule) :=
  run_invariant (SetSound fnmatch key calls context) (fun _ call sound => sound.step call)
    (setSound_start context) schedule

/-! ## When all calls have returned -/

/-- A call that wrote the tree has, once all calls have returned, told every callback of the
snapshot its value, each once. -/
theorem SetSound.tells {context : ParamContext γ} {race : SetRace γ}
    (sound : SetSound fnmatch key calls context race) (finished : AllReturned calls race)
    {call : Nat} (updated : call ∈ race.updates) :
    ∃ oldValue passed, valueOf calls call = some passed ∧
      race.toldBy call = (snapshot fnmatch key context.watchers).map fun callback =>
        ⟨callback, key, oldValue, passed⟩ := by
  have own := sound.phase call
  by_cases listed : call < calls.length
  · have ended := finished call listed
    cases phase : race.phases call with
    | returned rc =>
      rw [phase] at own
      rcases own with ⟨-, missed, -⟩ | ⟨-, oldValue, passed, valued, -, told⟩
      · exact absurd updated missed
      · exact ⟨oldValue, passed, valued, told⟩
    | _ => simp [phase, SetPhase.isReturned] at ended
  · have none : valueOf calls call = none := by
      simp [valueOf, List.getElem?_eq_none (Nat.le_of_not_lt listed)]
    rw [none] at own
    cases phase : race.phases call with
    | idle =>
      rw [phase] at own
      exact absurd updated own.1
    | written oldValue passed =>
      rw [phase] at own
      cases own.1
    | telling oldValue passed rest =>
      rw [phase] at own
      obtain ⟨callbacks, -, valued, -⟩ := own
      cases valued
    | returned rc =>
      rw [phase] at own
      rcases own with ⟨-, missed, -⟩ | ⟨-, oldValue, passed, valued, -⟩
      · exact absurd updated missed
      · cases valued

/-- Everything that was told is about the key and comes from a call that wrote the tree, with its
value. -/
theorem SetSound.origin {context : ParamContext γ} {race : SetRace γ}
    (sound : SetSound fnmatch key calls context race) {told : Told γ} (listed : told ∈ race.told) :
    told.call ∈ race.updates ∧ valueOf calls told.call = some told.delivery.newValue ∧
      told.delivery.key = key := by
  have mine : told.delivery ∈ race.toldBy told.call :=
    List.mem_map.mpr ⟨told, List.mem_filter.mpr ⟨listed, by simp⟩, rfl⟩
  have passes {oldValue : Option CString} {passed : CString} {callbacks : List γ}
      (tells : Tells key (valueOf calls told.call) (told.call ∈ race.updates)
        (race.toldBy told.call) oldValue passed callbacks) :
      told.call ∈ race.updates ∧ valueOf calls told.call = some told.delivery.newValue ∧
        told.delivery.key = key := by
    obtain ⟨valued, updated, all⟩ := tells
    rw [all] at mine
    obtain ⟨callback, -, same⟩ := List.mem_map.mp mine
    rw [← same]
    exact ⟨updated, valued, rfl⟩
  have own := sound.phase told.call
  cases phase : race.phases told.call with
  | idle =>
    rw [phase] at own
    rw [own.2] at mine
    cases mine
  | written oldValue passed =>
    rw [phase] at own
    exact passes own
  | telling oldValue passed rest =>
    rw [phase] at own
    obtain ⟨callbacks, -, tells⟩ := own
    exact passes tells
  | returned rc =>
    rw [phase] at own
    rcases own with ⟨-, -, nothing⟩ | ⟨-, oldValue, passed, tells⟩
    · rw [nothing] at mine
      cases mine
    · exact passes tells

variable [DecidableEq γ]

/-- What a watcher was told last is a call of that watcher. -/
theorem lastTold_some {race : SetRace γ} {callback : γ} {told : Told γ}
    (last : race.lastTold callback = some told) :
    told ∈ race.told ∧ told.delivery.callback = callback := by
  have listed := List.mem_filter.mp (List.mem_of_getLast? last)
  exact ⟨listed.1, by simpa using listed.2⟩

/-- Once all calls have returned and one of them wrote the tree, every watcher of the snapshot was
told something. -/
theorem SetSound.lastTold_isSome {context : ParamContext γ} {race : SetRace γ}
    (sound : SetSound fnmatch key calls context race) (finished : AllReturned calls race)
    {callback : γ} (listed : callback ∈ snapshot fnmatch key context.watchers)
    (updated : race.updates ≠ []) : ∃ told, race.lastTold callback = some told := by
  obtain ⟨call, member⟩ := List.exists_mem_of_ne_nil _ updated
  obtain ⟨oldValue, passed, -, all⟩ := sound.tells finished member
  have mine : (⟨callback, key, oldValue, passed⟩ : Delivery γ) ∈ race.toldBy call := by
    rw [all]
    exact List.mem_map.mpr ⟨callback, listed, rfl⟩
  obtain ⟨told, among, same⟩ := List.mem_map.mp mine
  have here : told ∈ race.told.filter fun told => told.delivery.callback = callback := by
    rw [List.mem_filter]
    exact ⟨(List.mem_filter.mp among).1, by simp [same]⟩
  exact Option.ne_none_iff_exists'.mp fun none => by
    rw [SetRace.lastTold, List.getLast?_eq_none_iff] at none
    rw [none] at here
    cases here

/-- The value of the tree is the one a watcher was told last, as the tree gives it back, when the
call that told it last is the one that wrote the tree last. -/
theorem SetSound.agrees {context : ParamContext γ} {race : SetRace γ}
    (sound : SetSound fnmatch key calls context race) {callback : γ} {told : Told γ}
    (last : race.lastTold callback = some told) (wrote : race.updates.getLast? = some told.call) :
    hwParamGet race.context.root key = readBack told.delivery.newValue := by
  obtain ⟨-, valued, -⟩ := sound.origin (lastTold_some last).1
  rw [sound.stored, wrote]
  simp [valued]

end HwrunOs.Param
