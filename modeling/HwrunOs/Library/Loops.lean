import Mathlib.Data.Nat.Init

/-!
# Loops

A loop without a bound is its body: a function that goes on from a state or stops with a
result. A loop is run with a number of passes; that it stops is a statement of its own, proved
by a measure, and that it does not stop is one too.
-/

namespace HwrunOs.Loops

/-- One pass of a loop: it goes on from a state, or stops with a result. -/
inductive Pass (σ ρ : Type*) where
  /-- It goes on. -/
  | next (state : σ)
  /-- It stops. -/
  | stop (result : ρ)

variable {σ ρ : Type*}

/-- The result of a loop within a number of passes, or `none` while it is still running. -/
def runLoop (body : σ → Pass σ ρ) : Nat → σ → Option ρ
  | 0, _ => none
  | fuel + 1, state =>
    match body state with
    | .next later => runLoop body fuel later
    | .stop result => some result

/-- The loop stops with a result. -/
def Stops (body : σ → Pass σ ρ) (state : σ) (result : ρ) : Prop :=
  ∃ fuel, runLoop body fuel state = some result

/-- The states that a loop comes to between its passes. -/
inductive Comes (body : σ → Pass σ ρ) (start : σ) : σ → Prop
  /-- Before the first pass. -/
  | start : Comes body start start
  /-- After a pass that goes on. -/
  | pass {state later : σ} (before : Comes body start state) (went : body state = .next later) :
      Comes body start later

/-- A second pass part follows a first, unless the first stops. -/
def Pass.andThen (first second : σ → Pass σ ρ) (state : σ) : Pass σ ρ :=
  match first state with
  | .next later => second later
  | .stop result => .stop result

variable {body : σ → Pass σ ρ}

/-- A pass that goes on leaves the rest of the run. -/
theorem runLoop_next {state later : σ} (pass : body state = .next later) (fuel : Nat) :
    runLoop body (fuel + 1) state = runLoop body fuel later := by
  simp only [runLoop, pass]

/-- A pass that stops ends the run. -/
theorem runLoop_stop {state : σ} {final : ρ} (pass : body state = .stop final) (fuel : Nat) :
    runLoop body (fuel + 1) state = some final := by
  simp only [runLoop, pass]

/-- The second part runs where the first goes on. -/
theorem andThen_next {first second : σ → Pass σ ρ} {state middle : σ}
    (went : first state = .next middle) : Pass.andThen first second state = second middle := by
  simp only [Pass.andThen, went]

/-- The second part does not run where the first stops. -/
theorem andThen_stop {first second : σ → Pass σ ρ} {state : σ} {final : ρ}
    (stopped : first state = .stop final) : Pass.andThen first second state = .stop final := by
  simp only [Pass.andThen, stopped]

/-- More passes do not change a result. -/
theorem runLoop_more {fuel more : Nat} {state : σ} {result : ρ} (enough : fuel ≤ more)
    (ran : runLoop body fuel state = some result) : runLoop body more state = some result := by
  induction fuel generalizing more state with
  | zero => cases ran
  | succ fuel ih =>
    obtain ⟨more, rfl⟩ : ∃ less, more = less + 1 := ⟨more - 1, by omega⟩
    cases pass : body state with
    | next later =>
      rw [runLoop_next pass] at ran ⊢
      exact ih (by omega) ran
    | stop final =>
      rw [runLoop_stop pass] at ran ⊢
      exact ran

/-- A loop has one result. -/
theorem Stops.unique {state : σ} {first second : ρ} (one : Stops body state first)
    (two : Stops body state second) : first = second := by
  obtain ⟨few, one⟩ := one
  obtain ⟨many, two⟩ := two
  have shared := runLoop_more (Nat.le_max_left few many) one
  rw [runLoop_more (Nat.le_max_right few many) two] at shared
  exact (Option.some.inj shared).symm

/-- A pass that stops. -/
theorem stops_stop {state : σ} {final result : ρ} (pass : body state = .stop final) :
    Stops body state result ↔ result = final := by
  constructor
  · rintro ⟨fuel, ran⟩
    cases fuel with
    | zero => cases ran
    | succ fuel =>
      rw [runLoop_stop pass] at ran
      exact (Option.some.inj ran).symm
  · rintro rfl
    exact ⟨1, runLoop_stop pass 0⟩

/-- A pass that goes on. -/
theorem stops_next {state later : σ} {result : ρ} (pass : body state = .next later) :
    Stops body state result ↔ Stops body later result := by
  constructor
  · rintro ⟨fuel, ran⟩
    cases fuel with
    | zero => cases ran
    | succ fuel =>
      rw [runLoop_next pass] at ran
      exact ⟨fuel, ran⟩
  · rintro ⟨fuel, ran⟩
    exact ⟨fuel + 1, (runLoop_next pass fuel).trans ran⟩

/-- A loop whose passes keep an invariant stops with what the last pass gives. -/
theorem Stops.spec {invariant : σ → Prop} {post : ρ → Prop}
    (pass : ∀ state, invariant state → (∃ result, body state = .stop result ∧ post result) ∨
      ∃ later, body state = .next later ∧ invariant later)
    {state : σ} {result : ρ} (initial : invariant state) (stops : Stops body state result) :
    post result := by
  obtain ⟨fuel, ran⟩ := stops
  induction fuel generalizing state with
  | zero => cases ran
  | succ fuel ih =>
    rcases pass state initial with ⟨last, stopped, final⟩ | ⟨later, went, kept⟩
    · rw [runLoop_stop stopped] at ran
      obtain rfl := Option.some.inj ran
      exact final
    · rw [runLoop_next went] at ran
      exact ih kept ran

/-- What every pass keeps holds in every state that the loop comes to. -/
theorem Comes.keeps {invariant : σ → Prop} {start state : σ}
    (step : ∀ state later, invariant state → body state = .next later → invariant later)
    (initial : invariant start) (comes : Comes body start state) : invariant state := by
  induction comes with
  | start => exact initial
  | pass before went ih => exact step _ _ ih went

/-- The states behind the first pass. -/
theorem Comes.later {start middle state : σ} (went : body start = .next middle)
    (comes : Comes body middle state) : Comes body start state := by
  induction comes with
  | start => exact .pass .start went
  | pass before step ih => exact .pass ih step

/-- A loop whose passes keep an invariant and make a measure smaller stops, with what the last
pass gives. -/
theorem exists_stops {invariant : σ → Prop} {post : ρ → Prop} (measure : σ → Nat)
    (pass : ∀ state, invariant state → (∃ result, body state = .stop result ∧ post result) ∨
      ∃ later, body state = .next later ∧ invariant later ∧ measure later < measure state)
    {state : σ} (initial : invariant state) : ∃ result, Stops body state result ∧ post result := by
  induction size : measure state using Nat.strong_induction_on generalizing state with
  | _ size ih =>
    rcases pass state initial with ⟨result, stopped, final⟩ | ⟨later, went, kept, smaller⟩
    · exact ⟨result, (stops_stop stopped).mpr rfl, final⟩
    · obtain ⟨result, stops, final⟩ := ih _ (by omega) kept rfl
      exact ⟨result, (stops_next went).mpr stops, final⟩

/-- A loop that goes on from every state of a set, within the set, never stops. -/
theorem not_stops {invariant : σ → Prop}
    (step : ∀ state, invariant state → ∃ later, body state = .next later ∧ invariant later)
    {state : σ} (initial : invariant state) (result : ρ) : ¬ Stops body state result := by
  rintro ⟨fuel, ran⟩
  induction fuel generalizing state with
  | zero => cases ran
  | succ fuel ih =>
    obtain ⟨later, pass, kept⟩ := step state initial
    rw [runLoop_next pass] at ran
    exact ih kept ran

/-- A loop of two parts is the first part once, and then the loop that begins with the second. -/
theorem stops_rotate {first second : σ → Pass σ ρ} {state : σ} {result : ρ} :
    Stops (Pass.andThen first second) state result ↔
      first state = .stop result ∨
        ∃ later, first state = .next later ∧ Stops (Pass.andThen second first) later result := by
  constructor
  · rintro ⟨fuel, ran⟩
    induction fuel generalizing state with
    | zero => cases ran
    | succ fuel ih =>
      cases one : first state with
      | stop final =>
        rw [runLoop_stop (andThen_stop one)] at ran
        exact .inl (by rw [Option.some.inj ran])
      | next middle =>
        refine .inr ⟨middle, rfl, ?_⟩
        cases two : second middle with
        | stop final =>
          rw [runLoop_stop ((andThen_next one).trans two)] at ran
          obtain rfl := Option.some.inj ran
          exact (stops_stop (andThen_stop two)).mpr rfl
        | next later =>
          rw [runLoop_next ((andThen_next one).trans two)] at ran
          rcases ih ran with stopped | ⟨again, went, rest⟩
          · exact (stops_stop ((andThen_next two).trans stopped)).mpr rfl
          · exact (stops_next ((andThen_next two).trans went)).mpr rest
  · rintro (stopped | ⟨middle, went, fuel, ran⟩)
    · exact (stops_stop (andThen_stop stopped)).mpr rfl
    · induction fuel generalizing state middle with
      | zero => cases ran
      | succ fuel ih =>
        cases two : second middle with
        | stop final =>
          rw [runLoop_stop (andThen_stop two)] at ran
          obtain rfl := Option.some.inj ran
          exact (stops_stop ((andThen_next went).trans two)).mpr rfl
        | next later =>
          rw [stops_next ((andThen_next went).trans two)]
          cases one : first later with
          | stop final =>
            rw [runLoop_stop ((andThen_next two).trans one)] at ran
            obtain rfl := Option.some.inj ran
            exact (stops_stop (andThen_stop one)).mpr rfl
          | next again =>
            rw [runLoop_next ((andThen_next two).trans one)] at ran
            exact ih again one ran

end HwrunOs.Loops
