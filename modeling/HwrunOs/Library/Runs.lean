import Mathlib.Order.Basic

/-!
# Runs of a deterministic step

A system is a function from a state and an action to the next state. Whatever the
environment decides is part of the action, so a run is the list of its actions. The two
ways to speak about a run are a condition on every step taken (`AllSteps`) and a property
of every state reached (`AllStates`); the rules below pass from one to the other through
an invariant.
-/

namespace HwrunOs.Runs

variable {σ α : Type*} {step : σ → α → σ}

/-- The state after the actions of a run, taken in order. -/
def run (step : σ → α → σ) (start : σ) (actions : List α) : σ := actions.foldl step start

/-- Every step of the run meets a condition on its action and the state before it. -/
def AllSteps (step : σ → α → σ) (ok : σ → α → Prop) : σ → List α → Prop
  | _, [] => True
  | state, action :: rest => ok state action ∧ AllSteps step ok (step state action) rest

/-- A property holds in the first state and in every state the run reaches. -/
def AllStates (step : σ → α → σ) (good : σ → Prop) : σ → List α → Prop
  | state, [] => good state
  | state, action :: rest => good state ∧ AllStates step good (step state action) rest

/-- A condition on steps is checked on concrete runs. -/
instance AllSteps.decidable (step : σ → α → σ) (ok : σ → α → Prop)
    [∀ state action, Decidable (ok state action)] :
    ∀ state actions, Decidable (AllSteps step ok state actions)
  | _, [] => inferInstanceAs (Decidable True)
  | state, action :: rest =>
    have := AllSteps.decidable step ok (step state action) rest
    inferInstanceAs (Decidable (ok state action ∧ AllSteps step ok (step state action) rest))

@[simp] theorem run_nil (start : σ) : run step start [] = start := rfl

@[simp] theorem run_cons (start : σ) (action : α) (rest : List α) :
    run step start (action :: rest) = run step (step start action) rest := rfl

/-- A run is its front part followed by the rest. -/
theorem run_append (start : σ) (front back : List α) :
    run step start (front ++ back) = run step (run step start front) back :=
  List.foldl_append

/-- A property of every state reached is a property of the state after every front part. -/
theorem allStates_iff {good : σ → Prop} {start : σ} {actions : List α} :
    AllStates step good start actions ↔
      ∀ front back, actions = front ++ back → good (run step start front) := by
  induction actions generalizing start with
  | nil =>
    constructor
    · intro holds front back split
      obtain ⟨rfl, -⟩ := List.nil_eq_append_iff.mp split
      exact holds
    · intro holds
      exact holds [] [] rfl
  | cons action rest ih =>
    constructor
    · rintro ⟨first, later⟩ front back split
      cases front with
      | nil => exact first
      | cons head front =>
        obtain ⟨rfl, tail⟩ := List.cons.inj split
        exact ih.mp later front back tail
    · intro holds
      refine ⟨holds [] _ rfl, ih.mpr ?_⟩
      intro front back split
      exact holds (action :: front) back (by rw [split, List.cons_append])

/-- The last state of a run is one of the states it reaches. -/
theorem AllStates.last {good : σ → Prop} {start : σ} {actions : List α}
    (holds : AllStates step good start actions) : good (run step start actions) :=
  allStates_iff.mp holds actions [] (by simp)

/-- A weaker property of every state. -/
theorem AllStates.mono {good weaker : σ → Prop} (weaken : ∀ state, good state → weaker state)
    {start : σ} {actions : List α} (holds : AllStates step good start actions) :
    AllStates step weaker start actions := by
  rw [allStates_iff] at holds ⊢
  exact fun front back split => weaken _ (holds front back split)

/-- A condition of the steps of a run splits at every front part. -/
theorem allSteps_append {ok : σ → α → Prop} {start : σ} {front back : List α} :
    AllSteps step ok start (front ++ back) ↔
      AllSteps step ok start front ∧ AllSteps step ok (run step start front) back := by
  induction front generalizing start with
  | nil => simp [AllSteps]
  | cons action rest ih => simp [AllSteps, ih, and_assoc]

/-- A weaker condition of every step. -/
theorem AllSteps.mono {ok weaker : σ → α → Prop}
    (weaken : ∀ state action, ok state action → weaker state action) {start : σ}
    {actions : List α} (holds : AllSteps step ok start actions) :
    AllSteps step weaker start actions := by
  induction actions generalizing start with
  | nil => trivial
  | cons action rest ih => exact ⟨weaken _ _ holds.1, ih holds.2⟩

/-- A condition that every step meets is met along every run. -/
theorem allSteps_of_forall {ok : σ → α → Prop} (always : ∀ state action, ok state action)
    (start : σ) (actions : List α) : AllSteps step ok start actions := by
  induction actions generalizing start with
  | nil => trivial
  | cons action rest ih => exact ⟨always _ _, ih _⟩

/-- A condition on the actions alone that all actions of a run meet is met along it. -/
theorem allSteps_of_mem {ok : α → Prop} {actions : List α} (always : ∀ action ∈ actions, ok action)
    (start : σ) : AllSteps step (fun _ action => ok action) start actions := by
  induction actions generalizing start with
  | nil => trivial
  | cons action rest ih =>
    exact ⟨always action (.head _), ih (fun other member => always other (.tail _ member)) _⟩

/-- Two conditions of every step. -/
theorem AllSteps.and {ok other : σ → α → Prop} {start : σ} {actions : List α}
    (first : AllSteps step ok start actions) (second : AllSteps step other start actions) :
    AllSteps step (fun state action => ok state action ∧ other state action) start actions := by
  induction actions generalizing start with
  | nil => trivial
  | cons action rest ih => exact ⟨⟨first.1, second.1⟩, ih first.2 second.2⟩

/-- Two properties of every state. -/
theorem AllStates.and {good other : σ → Prop} {start : σ} {actions : List α}
    (first : AllStates step good start actions) (second : AllStates step other start actions) :
    AllStates step (fun state => good state ∧ other state) start actions := by
  induction actions generalizing start with
  | nil => exact ⟨first, second⟩
  | cons action rest ih => exact ⟨⟨first.1, second.1⟩, ih first.2 second.2⟩

/-- What every step leaves related to the state before it, every later state is related to. -/
theorem allSteps_related_iff {related : σ → σ → Prop} (refl : ∀ state, related state state)
    (trans : ∀ first second third, related first second → related second third →
      related first third) {start : σ} {actions : List α} :
    AllSteps step (fun state action => related state (step state action)) start actions ↔
      ∀ front middle back, actions = front ++ middle ++ back →
        related (run step start front) (run step start (front ++ middle)) := by
  constructor
  · intro steps front middle back split
    subst split
    rw [List.append_assoc, allSteps_append, allSteps_append] at steps
    rw [run_append]
    generalize run step start front = state at steps
    replace steps := steps.2.1
    induction middle generalizing state with
    | nil => exact refl state
    | cons action rest ih => exact trans _ _ _ steps.1 (ih _ steps.2)
  · intro holds
    induction actions generalizing start with
    | nil => trivial
    | cons action rest ih =>
      refine ⟨holds [] [action] rest rfl, ih ?_⟩
      intro front middle back split
      exact holds (action :: front) middle back (by rw [split]; rfl)

/-! ## Invariants -/

/-- An invariant of the steps that meet a condition holds in every state of a run whose steps
all meet it. -/
theorem allStates_of_steps {invariant : σ → Prop} {ok : σ → α → Prop}
    (kept : ∀ state action, invariant state → ok state action → invariant (step state action))
    {start : σ} (initial : invariant start) {actions : List α}
    (steps : AllSteps step ok start actions) : AllStates step invariant start actions := by
  induction actions generalizing start with
  | nil => exact initial
  | cons action rest ih => exact ⟨initial, ih (kept _ _ initial steps.1) steps.2⟩

/-- An invariant of every step holds in every state of every run. -/
theorem allStates_of_invariant {invariant : σ → Prop}
    (kept : ∀ state action, invariant state → invariant (step state action)) {start : σ}
    (initial : invariant start) (actions : List α) : AllStates step invariant start actions :=
  have unconditioned : AllSteps step (fun _ _ => True) start actions :=
    allSteps_of_forall (fun _ _ => trivial) start actions
  allStates_of_steps (fun state action holds _ => kept state action holds) initial unconditioned

/-- An invariant of every step holds after every run. -/
theorem run_invariant (invariant : σ → Prop)
    (kept : ∀ state action, invariant state → invariant (step state action)) {start : σ}
    (initial : invariant start) (actions : List α) : invariant (run step start actions) :=
  (allStates_of_invariant kept initial actions).last

/-- When a step that misses a condition leads to a trap that no step leaves, every run meets the
condition at all steps or ends in the trap. -/
theorem allSteps_or_trap {ok : σ → α → Prop} {trap : σ → Prop}
    (enters : ∀ state action, ¬ ok state action → trap (step state action))
    (stays : ∀ state action, trap state → trap (step state action)) (start : σ)
    (actions : List α) : AllSteps step ok start actions ∨ trap (run step start actions) := by
  induction actions generalizing start with
  | nil => exact .inl trivial
  | cons action rest ih =>
    by_cases met : ok start action
    · exact (ih _).imp_left fun later => ⟨met, later⟩
    · exact .inr (run_invariant trap stays (enters _ _ met) rest)

/-- A step condition that follows from an invariant of the conditioned steps holds along the
run. -/
theorem allSteps_of_steps (invariant : σ → Prop) {ok sound : σ → α → Prop}
    (kept : ∀ state action, invariant state → ok state action → invariant (step state action))
    (implies : ∀ state action, invariant state → ok state action → sound state action)
    {start : σ} (initial : invariant start) {actions : List α}
    (steps : AllSteps step ok start actions) : AllSteps step sound start actions := by
  induction actions generalizing start with
  | nil => trivial
  | cons action rest ih =>
    exact ⟨implies _ _ initial steps.1, ih (kept _ _ initial steps.1) steps.2⟩

/-- The exact condition of a property of the steps: when the usual steps that meet the condition
keep the invariant and have the property, and no other has it, the steps of a run of usual steps
all have the property exactly when they all meet the condition. -/
theorem allSteps_iff_of_usual {invariant : σ → Prop} {ok sound usual : σ → α → Prop}
    (kept : ∀ state action, invariant state → usual state action → ok state action →
      invariant (step state action))
    (implies : ∀ state action, invariant state → usual state action → ok state action →
      sound state action)
    (broken : ∀ state action, invariant state → usual state action → ¬ ok state action →
      ¬ sound state action)
    {start : σ} (initial : invariant start) {actions : List α}
    (usually : AllSteps step usual start actions) :
    AllSteps step sound start actions ↔ AllSteps step ok start actions := by
  induction actions generalizing start with
  | nil => exact ⟨fun _ => trivial, fun _ => trivial⟩
  | cons action rest ih =>
    constructor
    · intro holds
      have met : ok start action := by
        by_contra missed
        exact broken _ _ initial usually.1 missed holds.1
      exact ⟨met, (ih (kept _ _ initial usually.1 met) usually.2).mp holds.2⟩
    · intro holds
      have next := kept _ _ initial usually.1 holds.1
      exact ⟨implies _ _ initial usually.1 holds.1, (ih next usually.2).mpr holds.2⟩

/-- The exact condition of a property of the steps: when the steps that meet the condition keep
the invariant and have the property, and no other step has it, the steps of a run all have the
property exactly when they all meet the condition. -/
theorem allSteps_iff {invariant : σ → Prop} {ok sound : σ → α → Prop}
    (kept : ∀ state action, invariant state → ok state action → invariant (step state action))
    (implies : ∀ state action, invariant state → ok state action → sound state action)
    (broken : ∀ state action, invariant state → ¬ ok state action → ¬ sound state action)
    {start : σ} (initial : invariant start) {actions : List α} :
    AllSteps step sound start actions ↔ AllSteps step ok start actions :=
  have usually : AllSteps step (fun _ _ => True) start actions :=
    allSteps_of_forall (fun _ _ => trivial) start actions
  allSteps_iff_of_usual (fun state action holds _ => kept state action holds)
    (fun state action holds _ => implies state action holds)
    (fun state action holds _ => broken state action holds) initial usually

/-- The exact condition of a property: when every state of the invariant is good, the steps
that meet the condition keep the invariant and every other usual step leaves the good states,
then all states of a run of usual steps are good exactly when all its steps meet the
condition. -/
theorem allStates_iff_allSteps {invariant good : σ → Prop} {ok usual : σ → α → Prop}
    (sound : ∀ state, invariant state → good state)
    (kept : ∀ state action, invariant state → ok state action → invariant (step state action))
    (broken : ∀ state action, invariant state → usual state action → ¬ ok state action →
      ¬ good (step state action))
    {start : σ} (initial : invariant start) {actions : List α}
    (usually : AllSteps step usual start actions) :
    AllStates step good start actions ↔ AllSteps step ok start actions := by
  constructor
  · intro holds
    induction actions generalizing start with
    | nil => trivial
    | cons action rest ih =>
      have met : ok start action := by
        by_contra missed
        refine broken _ _ initial usually.1 missed ?_
        exact allStates_iff.mp holds.2 [] rest rfl
      exact ⟨met, ih (kept _ _ initial met) usually.2 holds.2⟩
  · intro steps
    exact (allStates_of_steps kept initial steps).mono sound

/-- When a step leaves the good states exactly where it misses a condition and never enters them,
the last state of a run is good exactly when all its steps meet the condition. -/
theorem run_iff_allSteps {good : σ → Prop} {ok : σ → α → Prop}
    (splits : ∀ state action, good (step state action) ↔ good state ∧ ok state action) {start : σ}
    (initial : good start) (actions : List α) :
    good (run step start actions) ↔ AllSteps step ok start actions := by
  have lost : ∀ state action, ¬ good state → ¬ good (step state action) :=
    fun state action bad holds => bad ((splits state action).mp holds).1
  constructor
  · intro holds
    have enters : ∀ state action, ¬ ok state action → ¬ good (step state action) :=
      fun state action missed after => missed ((splits state action).mp after).2
    rcases allSteps_or_trap enters lost start actions with steps | trapped
    · exact steps
    · exact absurd holds trapped
  · intro steps
    exact (allStates_of_steps (fun state action holds met => (splits state action).mpr ⟨holds, met⟩)
      initial steps).last

end HwrunOs.Runs
