import Mathlib.Data.List.Nodup
import Mathlib.Logic.Function.Basic
import HwrunOs.Library.Runs

/-!
# Changes that are told outside the lock

A call changes a shared state in one critical section. When the change has something to tell, the
call asks in another critical section who is to be told, and tells them one after the other without
the lock. The steps of concurrent calls come in any order, so the changes are made one after the
other, but what the last change tells need not be told last.
-/

namespace HwrunOs.Dispatch

open HwrunOs.Runs

variable {σ κ μ γ : Type}

/-- What calls do to a shared state, and whom they tell. -/
structure Announcer (σ κ μ γ : Type) where
  /-- The first critical section: the new state, and a message if there is something to tell. -/
  change : σ → κ → σ × Option μ
  /-- The second one: who is told a message, in order. -/
  audience : σ → μ → List γ

/-- Where a call stands between its steps. -/
inductive Phase (μ γ : Type) where
  /-- It has not started. -/
  | idle
  /-- It changed the state and has a message. -/
  | changed (message : μ)
  /-- It knows whom to tell, and these are left. -/
  | telling (message : μ) (rest : List γ)
  /-- It returned. -/
  | returned
  deriving DecidableEq

/-- A message that was told, with the call that told it. -/
structure Told (μ γ : Type) where
  /-- The call. -/
  call : Nat
  /-- Who was told. -/
  listener : γ
  /-- The message. -/
  message : μ
  deriving DecidableEq

/-- The shared state, the calls under way, and what was done in which order. -/
structure Race (σ μ γ : Type) where
  /-- The shared state. -/
  shared : σ
  /-- Where each call stands. -/
  phases : Nat → Phase μ γ
  /-- The calls that changed the state, oldest first. -/
  changes : List Nat
  /-- What was told, oldest first. -/
  told : List (Told μ γ)

/-- Nothing is under way. -/
def Race.start (state : σ) : Race σ μ γ := ⟨state, fun _ => .idle, [], []⟩

/-- A call goes on. -/
def Race.become (race : Race σ μ γ) (call : Nat) (phase : Phase μ γ) : Race σ μ γ :=
  { race with phases := Function.update race.phases call phase }

/-- A listener is told. -/
def Race.tell (race : Race σ μ γ) (told : Told μ γ) : Race σ μ γ :=
  { race with told := race.told ++ [told] }

variable (announcer : Announcer σ κ μ γ) (calls : List κ)

/-- The first critical section. -/
def changeStep (race : Race σ μ γ) (call : Nat) (args : κ) : Race σ μ γ :=
  match announcer.change race.shared args with
  | (shared, some message) =>
    { race.become call (.changed message) with
      shared := shared
      changes := race.changes ++ [call] }
  | (shared, none) => { race.become call .returned with shared := shared }

/-- The next step of one of the calls. -/
def raceStep (race : Race σ μ γ) (call : Nat) : Race σ μ γ :=
  match calls[call]? with
  | none => race
  | some args => match race.phases call with
    | .idle => changeStep announcer race call args
    | .changed message =>
      race.become call (.telling message (announcer.audience race.shared message))
    | .telling _ [] => race.become call .returned
    | .telling message (listener :: rest) =>
      (race.become call (.telling message rest)).tell ⟨call, listener, message⟩
    | .returned => race

/-- The calls in an order of their steps. -/
def race (state : σ) (schedule : List Nat) : Race σ μ γ :=
  run (raceStep announcer calls) (Race.start state) schedule

/-- The call is over. -/
def Phase.isReturned : Phase μ γ → Bool
  | .returned => true
  | _ => false

/-- All calls have returned. -/
def AllReturned (race : Race σ μ γ) : Prop :=
  ∀ call < calls.length, (race.phases call).isReturned = true

instance (race : Race σ μ γ) : Decidable (AllReturned calls race) :=
  inferInstanceAs (Decidable (∀ call < calls.length, _))

/-- The state after some calls have changed it one after the other. -/
def after (state : σ) (changes : List Nat) : σ :=
  changes.foldl (fun state call =>
    match calls[call]? with
    | none => state
    | some args => (announcer.change state args).1) state

/-- What one call told, in order. -/
def Race.toldBy (race : Race σ μ γ) (call : Nat) : List (γ × μ) :=
  (race.told.filter fun told => told.call = call).map fun told => (told.listener, told.message)

/-- What a listener was told last. -/
def Race.lastTold [DecidableEq γ] (race : Race σ μ γ) (listener : γ) : Option (Told μ γ) :=
  (race.told.filter fun told => told.listener = listener).getLast?

/-- A call had its turn among the changes and got a message from its change. -/
def Makes (state : σ) (changes : List Nat) (call : Nat) (message : μ) : Prop :=
  ∃ args front back, calls[call]? = some args ∧ changes = front ++ call :: back ∧
    (announcer.change (after announcer calls state front) args).2 = some message

/-- Changes without a message change nothing, and no change alters who is told a message. -/
structure Announcer.Lawful (announcer : Announcer σ κ μ γ) : Prop where
  /-- A change without a message. -/
  silent : ∀ state args, (announcer.change state args).2 = none →
    (announcer.change state args).1 = state
  /-- The audience. -/
  audience : ∀ state args message,
    announcer.audience (announcer.change state args).1 message = announcer.audience state message

/-! ## What every order of the steps keeps -/

/-- What a call did so far, by where it stands. -/
def PhaseSound (state : σ) (changes : List Nat) (call : Nat) (told : List (γ × μ)) :
    Phase μ γ → Prop
  | .idle => call ∉ changes ∧ told = []
  | .changed message => Makes announcer calls state changes call message ∧ told = []
  | .telling message rest => Makes announcer calls state changes call message ∧
    ∃ done, announcer.audience state message = done ++ rest ∧
      told = done.map fun listener => (listener, message)
  | .returned => (call ∉ changes ∧ told = []) ∨
    ∃ message, Makes announcer calls state changes call message ∧
      told = (announcer.audience state message).map fun listener => (listener, message)

/-- What holds between the steps. -/
structure Sound (state : σ) (race : Race σ μ γ) : Prop where
  /-- The changes were made one after the other. -/
  shared : race.shared = after announcer calls state race.changes
  /-- No call changed the state twice. -/
  once : race.changes.Nodup
  /-- Every call did what its phase says. -/
  phase : ∀ call, PhaseSound announcer calls state race.changes call (race.toldBy call)
    (race.phases call)

variable {announcer calls}

/-- One more change. -/
theorem after_snoc {state : σ} {changes : List Nat} {call : Nat} {args : κ}
    (mine : calls[call]? = some args) :
    after announcer calls state (changes ++ [call]) =
      (announcer.change (after announcer calls state changes) args).1 := by
  simp [after, List.foldl_append, mine]

/-- The audience of a message is the same all along. -/
theorem audience_after (lawful : announcer.Lawful) (state : σ) (changes : List Nat) (message : μ) :
    announcer.audience (after announcer calls state changes) message =
      announcer.audience state message := by
  induction changes generalizing state with
  | nil => rfl
  | cons call rest ih =>
    unfold after at ih ⊢
    rw [List.foldl_cons, ih]
    split
    · rfl
    · exact lawful.audience state _ message

/-- A call that made its change did so also after later changes. -/
theorem Makes.later {state : σ} {changes : List Nat} {call : Nat} {message : μ}
    (makes : Makes announcer calls state changes call message) (other : Nat) :
    Makes announcer calls state (changes ++ [other]) call message := by
  obtain ⟨args, front, back, mine, split, told⟩ := makes
  exact ⟨args, front, back ++ [other], mine, by simp [split], told⟩

/-- A call that made its change is among the changes. -/
theorem Makes.mem {state : σ} {changes : List Nat} {call : Nat} {message : μ}
    (makes : Makes announcer calls state changes call message) : call ∈ changes := by
  obtain ⟨args, front, back, -, split, -⟩ := makes
  simp [split]

/-- A change by another call keeps what a call did. -/
theorem PhaseSound.later {state : σ} {changes : List Nat} {call other : Nat}
    {told : List (γ × μ)} {phase : Phase μ γ} (different : call ≠ other)
    (own : PhaseSound announcer calls state changes call told phase) :
    PhaseSound announcer calls state (changes ++ [other]) call told phase := by
  have absent (missing : call ∉ changes) : call ∉ changes ++ [other] := by
    simp [missing, different]
  cases phase with
  | idle => exact ⟨absent own.1, own.2⟩
  | changed message => exact ⟨own.1.later other, own.2⟩
  | telling message rest => exact ⟨own.1.later other, own.2⟩
  | returned =>
    rcases own with ⟨missing, nothing⟩ | ⟨message, makes, told⟩
    · exact .inl ⟨absent missing, nothing⟩
    · exact .inr ⟨message, makes.later other, told⟩

/-- A call that goes on changes only its phase. -/
theorem Sound.become {state : σ} {race : Race σ μ γ} (sound : Sound announcer calls state race)
    {call : Nat} {phase : Phase μ γ}
    (own : PhaseSound announcer calls state race.changes call (race.toldBy call) phase) :
    Sound announcer calls state (race.become call phase) := by
  refine ⟨sound.shared, sound.once, ?_⟩
  intro other
  show PhaseSound announcer calls state race.changes other (race.toldBy other)
    (Function.update race.phases call phase other)
  by_cases same : other = call
  · subst same
    rw [Function.update_self]
    exact own
  · rw [Function.update_of_ne same]
    exact sound.phase other

/-- Telling adds to what the call itself told. -/
theorem toldBy_tell (race : Race σ μ γ) (call other : Nat) (listener : γ) (message : μ) :
    (race.tell ⟨call, listener, message⟩).toldBy other =
      race.toldBy other ++ if other = call then [(listener, message)] else [] := by
  by_cases same : other = call
  · simp [Race.toldBy, Race.tell, List.filter_append, same]
  · have others : ¬ call = other := fun equal => same equal.symm
    simp [Race.toldBy, Race.tell, List.filter_append, same, others]

/-- The first critical section keeps what holds. -/
theorem Sound.change (lawful : announcer.Lawful) {state : σ} {race : Race σ μ γ}
    (sound : Sound announcer calls state race) {call : Nat} {args : κ}
    (mine : calls[call]? = some args) (idle : race.phases call = .idle) :
    Sound announcer calls state (changeStep announcer race call args) := by
  have fresh := sound.phase call
  rw [idle] at fresh
  cases made : announcer.change race.shared args with
  | mk shared message =>
    have left : (announcer.change race.shared args).1 = shared := by rw [made]
    cases message with
    | none =>
      have same : shared = race.shared := by
        rw [← left]
        exact lawful.silent _ _ (by rw [made])
      have step : changeStep announcer race call args = race.become call .returned := by
        rw [changeStep, made, same]
        rfl
      rw [step]
      exact sound.become (.inl fresh)
    | some message =>
      have step : changeStep announcer race call args =
          { race.become call (.changed message) with
            shared := shared
            changes := race.changes ++ [call] } := by
        rw [changeStep, made]
      rw [step]
      refine ⟨?_, ?_, ?_⟩
      · show shared = after announcer calls state (race.changes ++ [call])
        rw [after_snoc mine, ← sound.shared, left]
      · show (race.changes ++ [call]).Nodup
        refine List.nodup_append.mpr ⟨sound.once, by simp, ?_⟩
        intro other before last new same
        rw [List.mem_singleton.mp new] at same
        exact fresh.1 (same ▸ before)
      · intro other
        show PhaseSound announcer calls state (race.changes ++ [call]) other (race.toldBy other)
          (Function.update race.phases call (.changed message) other)
        by_cases same : other = call
        · subst same
          rw [Function.update_self]
          refine ⟨⟨args, race.changes, [], mine, rfl, ?_⟩, fresh.2⟩
          rw [← sound.shared, made]
        · rw [Function.update_of_ne same]
          exact (sound.phase other).later same

/-- Every step keeps what holds. -/
theorem Sound.step (lawful : announcer.Lawful) {state : σ} {race : Race σ μ γ}
    (sound : Sound announcer calls state race) (call : Nat) :
    Sound announcer calls state (raceStep announcer calls race call) := by
  unfold raceStep
  split
  · exact sound
  · rename_i args mine
    have own := sound.phase call
    split
    · rename_i idle
      exact sound.change lawful mine idle
    · rename_i message here
      rw [here] at own
      refine sound.become ⟨own.1, [], ?_, own.2⟩
      rw [sound.shared, audience_after lawful, List.nil_append]
    · rename_i message here
      rw [here] at own
      obtain ⟨makes, done, whole, told⟩ := own
      rw [List.append_nil] at whole
      exact sound.become (.inr ⟨message, makes, whole ▸ told⟩)
    · rename_i message listener rest here
      rw [here] at own
      obtain ⟨makes, done, whole, told⟩ := own
      refine ⟨sound.shared, sound.once, ?_⟩
      intro other
      have grown := toldBy_tell (race.become call (.telling message rest)) call other listener
        message
      by_cases same : other = call
      · subst same
        show PhaseSound _ _ _ _ _ _ (Function.update race.phases other _ other)
        rw [Function.update_self, grown, if_pos rfl]
        refine ⟨makes, done ++ [listener], by simp [whole], ?_⟩
        rw [List.map_append, ← told]
        rfl
      · show PhaseSound _ _ _ _ _ _ (Function.update race.phases call _ other)
        rw [Function.update_of_ne same, grown, if_neg same, List.append_nil]
        exact sound.phase other
    · exact sound

/-- At first nothing was done. -/
theorem sound_start (state : σ) : Sound announcer calls state (Race.start state) :=
  ⟨rfl, List.nodup_nil, fun _ => ⟨List.not_mem_nil, rfl⟩⟩

/-- What holds after every order of the steps. -/
theorem sound_race (lawful : announcer.Lawful) (state : σ) (schedule : List Nat) :
    Sound announcer calls state (race announcer calls state schedule) :=
  run_invariant (Sound announcer calls state) (fun _ call sound => sound.step lawful call)
    (sound_start state) schedule

/-! ## When all calls have returned -/

/-- A call that changed the state has, once all calls have returned, told its message to everyone
in the audience, each once. -/
theorem Sound.tells {state : σ} {race : Race σ μ γ} (sound : Sound announcer calls state race)
    (finished : AllReturned calls race) {call : Nat} (changed : call ∈ race.changes) :
    ∃ message, Makes announcer calls state race.changes call message ∧
      race.toldBy call = (announcer.audience state message).map fun listener =>
        (listener, message) := by
  have own := sound.phase call
  have ended (args : κ) (mine : calls[call]? = some args) :
      (race.phases call).isReturned = true :=
    finished call (List.getElem?_eq_some_iff.mp mine).1
  have busy {message : μ} (makes : Makes announcer calls state race.changes call message) :
      (race.phases call).isReturned = true := by
    obtain ⟨args, -, -, mine, -, -⟩ := makes
    exact ended args mine
  cases phase : race.phases call with
  | idle =>
    rw [phase] at own
    exact absurd changed own.1
  | changed message =>
    rw [phase] at own busy
    cases busy own.1
  | telling message rest =>
    rw [phase] at own busy
    cases busy own.1
  | returned =>
    rw [phase] at own
    rcases own with ⟨missing, -⟩ | ⟨message, makes, told⟩
    · exact absurd changed missing
    · exact ⟨message, makes, told⟩

/-- Everything that was told is the message of a call that changed the state, told to one in its
audience. -/
theorem Sound.origin {state : σ} {race : Race σ μ γ} (sound : Sound announcer calls state race)
    {told : Told μ γ} (listed : told ∈ race.told) :
    Makes announcer calls state race.changes told.call told.message ∧
      told.listener ∈ announcer.audience state told.message := by
  have mine : (told.listener, told.message) ∈ race.toldBy told.call :=
    List.mem_map.mpr ⟨told, List.mem_filter.mpr ⟨listed, by simp⟩, rfl⟩
  have own := sound.phase told.call
  cases phase : race.phases told.call with
  | idle =>
    rw [phase] at own
    rw [own.2] at mine
    cases mine
  | changed message =>
    rw [phase] at own
    rw [own.2] at mine
    cases mine
  | telling message rest =>
    rw [phase] at own
    obtain ⟨makes, done, whole, all⟩ := own
    rw [all] at mine
    obtain ⟨listener, among, same⟩ := List.mem_map.mp mine
    obtain ⟨rfl, rfl⟩ := Prod.mk.inj same
    exact ⟨makes, by rw [whole]; exact List.mem_append_left _ among⟩
  | returned =>
    rw [phase] at own
    rcases own with ⟨-, nothing⟩ | ⟨message, makes, all⟩
    · rw [nothing] at mine
      cases mine
    · rw [all] at mine
      obtain ⟨listener, among, same⟩ := List.mem_map.mp mine
      obtain ⟨rfl, rfl⟩ := Prod.mk.inj same
      exact ⟨makes, among⟩

/-- A call that changed the state once has one place among the changes. -/
theorem front_unique {changes front other back behind : List Nat} {call : Nat}
    (once : changes.Nodup) (one : changes = front ++ call :: back)
    (two : changes = other ++ call :: behind) : front = other := by
  rw [one] at once two
  obtain ⟨-, tail, apart⟩ := List.nodup_append.mp once
  have before : call ∉ front := fun found => apart call found call List.mem_cons_self rfl
  have later : call ∉ back := (List.nodup_cons.mp tail).1
  exact ((List.append_cons_inj_of_notMem before later).mp two).1

/-- A call changes the state once, so it has one message. -/
theorem Makes.unique {state : σ} {changes : List Nat} (once : changes.Nodup) {call : Nat}
    {message other : μ} (one : Makes announcer calls state changes call message)
    (two : Makes announcer calls state changes call other) : message = other := by
  obtain ⟨args, front, back, mine, split, told⟩ := one
  obtain ⟨otherArgs, otherFront, otherBack, same, otherSplit, otherTold⟩ := two
  obtain rfl : args = otherArgs := Option.some.inj (mine.symm.trans same)
  rw [front_unique once split otherSplit] at told
  exact Option.some.inj (told.symm.trans otherTold)

/-- The shared state is what the last change made of what the changes before it left. -/
theorem Sound.last_change {state : σ} {race : Race σ μ γ} (sound : Sound announcer calls state race)
    (finished : AllReturned calls race) {call : Nat} (last : race.changes.getLast? = some call) :
    ∃ args front message, calls[call]? = some args ∧
      (announcer.change (after announcer calls state front) args).2 = some message ∧
      race.shared = (announcer.change (after announcer calls state front) args).1 := by
  obtain ⟨front, split⟩ := List.getLast?_eq_some_iff.mp last
  obtain ⟨message, makes, -⟩ := sound.tells finished (List.mem_of_getLast? last)
  obtain ⟨args, before, behind, mine, whole, told⟩ := makes
  rw [front_unique sound.once whole split] at told
  exact ⟨args, front, message, mine, told, by rw [sound.shared, split, after_snoc mine]⟩

/-! ## One call alone -/

/-- A call that has returned does nothing more. -/
theorem run_returned {race : Race σ μ γ} {call : Nat} (returned : race.phases call = .returned)
    (steps : Nat) :
    run (raceStep announcer calls) race (List.replicate steps call) = race := by
  have still : raceStep announcer calls race call = race := by
    unfold raceStep
    split
    · rfl
    · rw [returned]
  induction steps with
  | zero => rfl
  | succ steps ih => rw [List.replicate_succ, run_cons, still, ih]

/-- A call that is not interrupted tells the rest of its audience and returns. -/
theorem run_telling {race : Race σ μ γ} {call : Nat} {args : κ} (mine : calls[call]? = some args)
    {message : μ} {rest : List γ} (here : race.phases call = .telling message rest) :
    let after := run (raceStep announcer calls) race (List.replicate (rest.length + 1) call)
    after.shared = race.shared ∧ after.phases call = .returned ∧
      after.told = race.told ++ rest.map fun listener => ⟨call, listener, message⟩ := by
  induction rest generalizing race with
  | nil =>
    have step : raceStep announcer calls race call = race.become call .returned := by
      simp only [raceStep, mine, here]
    simp [List.replicate_succ, step, Race.become]
  | cons listener rest ih =>
    have step : raceStep announcer calls race call =
        (race.become call (.telling message rest)).tell ⟨call, listener, message⟩ := by
      simp only [raceStep, mine, here]
    have next : (raceStep announcer calls race call).phases call = .telling message rest := by
      rw [step]
      exact Function.update_self _ _ _
    obtain ⟨shared, returned, told⟩ := ih next
    rw [List.length_cons, List.replicate_succ, run_cons]
    refine ⟨?_, returned, ?_⟩
    · rw [shared, step]
      rfl
    · rw [told, step]
      simp [Race.tell, Race.become]

/-- A call that is not interrupted makes its change and tells everyone in its audience. -/
theorem run_alone {race : Race σ μ γ} {call : Nat} {args : κ} (mine : calls[call]? = some args)
    (idle : race.phases call = .idle) :
    ∃ steps, let after := run (raceStep announcer calls) race (List.replicate steps call)
      after.shared = (announcer.change race.shared args).1 ∧ after.phases call = .returned ∧
        after.told = race.told ++ match (announcer.change race.shared args).2 with
          | none => []
          | some message => (announcer.audience (announcer.change race.shared args).1 message).map
            fun listener => ⟨call, listener, message⟩ := by
  have first : raceStep announcer calls race call = changeStep announcer race call args := by
    simp only [raceStep, mine, idle]
  cases made : announcer.change race.shared args with
  | mk shared message =>
    cases message with
    | none =>
      refine ⟨1, ?_⟩
      rw [List.replicate_one, run_cons, run_nil, first, changeStep, made]
      exact ⟨rfl, Function.update_self _ _ _, (List.append_nil _).symm⟩
    | some message =>
      refine ⟨(announcer.audience shared message).length + 1 + 1 + 1, ?_⟩
      rw [List.replicate_succ, run_cons, first, List.replicate_succ, run_cons]
      have changed : changeStep announcer race call args =
          { race.become call (.changed message) with
            shared := shared
            changes := race.changes ++ [call] } := by
        rw [changeStep, made]
      have here : (changeStep announcer race call args).phases call = .changed message := by
        rw [changed]
        exact Function.update_self _ _ _
      have state : (changeStep announcer race call args).shared = shared := by
        rw [changed]
      have asked : raceStep announcer calls (changeStep announcer race call args) call =
          (changeStep announcer race call args).become call
            (.telling message (announcer.audience shared message)) := by
        simp only [raceStep, mine, here, state]
      have telling : (raceStep announcer calls (changeStep announcer race call args) call).phases
          call = .telling message (announcer.audience shared message) := by
        rw [asked]
        exact Function.update_self _ _ _
      obtain ⟨left, returned, told⟩ := run_telling mine telling
      refine ⟨?_, returned, ?_⟩
      · rw [left, asked, changed]
        rfl
      · rw [told, asked, changed]
        rfl

variable [DecidableEq γ]

/-- What a listener was told last was told to it. -/
theorem lastTold_some {race : Race σ μ γ} {listener : γ} {told : Told μ γ}
    (last : race.lastTold listener = some told) :
    told ∈ race.told ∧ told.listener = listener := by
  have listed := List.mem_filter.mp (List.mem_of_getLast? last)
  exact ⟨listed.1, by simpa using listed.2⟩

/-- Once all calls have returned, whoever is in the audience of a message was told something. -/
theorem Sound.lastTold_isSome {state : σ} {race : Race σ μ γ}
    (sound : Sound announcer calls state race) (finished : AllReturned calls race) {call : Nat}
    {message : μ} (makes : Makes announcer calls state race.changes call message) {listener : γ}
    (among : listener ∈ announcer.audience state message) :
    ∃ told, race.lastTold listener = some told := by
  obtain ⟨other, made, all⟩ := sound.tells finished makes.mem
  obtain rfl := makes.unique sound.once made
  have mine : (listener, message) ∈ race.toldBy call := by
    rw [all]
    exact List.mem_map_of_mem among
  obtain ⟨told, kept, same⟩ := List.mem_map.mp mine
  have here : told ∈ race.told.filter fun told => told.listener = listener := by
    rw [List.mem_filter]
    exact ⟨(List.mem_filter.mp kept).1, by simpa using (Prod.mk.inj same).1⟩
  exact Option.ne_none_iff_exists'.mp fun none => by
    rw [Race.lastTold, List.getLast?_eq_none_iff] at none
    rw [none] at here
    cases here

end HwrunOs.Dispatch
