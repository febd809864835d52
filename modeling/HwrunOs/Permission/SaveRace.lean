import Mathlib.Logic.Function.Basic
import HwrunOs.Permission.StateFile

/-!
# Concurrent changes of the policy

A call that changes the policy holds the lock twice: to change the policy, and to write the state
file, whose path is set when the plugin starts. Between the two other calls may change the policy
again and write it first, so a write may save the changes of others, and a file may be out of date
for as long as the call that made it so has not written. When no call is under way the file is that
of the policy.
-/

namespace HwrunOs.Permission

open HwrunOs.Bytes HwrunOs.Runs

/-! ## The steps -/

/-- A change with its result. -/
def perform (policy : Policy) : Action → Policy × Int
  | .roleAdd name description alloc => roleAdd policy name description alloc
  | .roleRemove name => roleRemove policy name
  | .roleAddPerm role action resource => roleAddPerm policy role action resource
  | .roleRemovePerm role action resource => roleRemovePerm policy role action resource
  | .grant subject role alloc => grant policy subject role alloc
  | .revoke subject role => revoke policy subject role

/-- Where a call stands between its steps. -/
inductive ChangePhase where
  /-- No call, or one that returned. -/
  | idle
  /-- The policy is changed, and the lock free again. -/
  | changed
  /-- The call has the lock and writes: one part of the text is written, the rest is not. -/
  | writing (written rest : CString)
  deriving DecidableEq

/-- The policy, the lock, the files and the calls under way. -/
structure ChangeRace where
  /-- The policy in memory. -/
  policy : Policy
  /-- The call that has the lock. -/
  lock : Option Nat
  /-- The state file. -/
  file : Option CString
  /-- The temporary file. -/
  temp : Option CString
  /-- Where each call stands. -/
  phases : Nat → ChangePhase
  /-- The changes that succeeded, oldest first. -/
  changes : List Action

/-- One step of one call. -/
inductive ChangeAction where
  /-- The first critical section: the policy is changed. -/
  | change (call : Nat) (action : Action)
  /-- `autosave_state` takes the lock, and `state_write_locked` opens the temporary file. -/
  | openTemp (call : Nat)
  /-- The next bytes are written. -/
  | write (call count : Nat)
  /-- The file is closed and renamed, and the lock released. -/
  | rename (call : Nat)

/-- A call goes on. -/
def ChangeRace.become (race : ChangeRace) (call : Nat) (phase : ChangePhase) : ChangeRace :=
  { race with phases := Function.update race.phases call phase }

/-- The system after a step; a call that needs the lock waits until it is free. -/
def changeStep (race : ChangeRace) : ChangeAction → ChangeRace
  | .change call action =>
    match race.lock, race.phases call with
    | none, .idle =>
      let (policy, rc) := perform race.policy action
      if rc = 0 then
        { race with policy := policy, changes := race.changes ++ [action] }.become call .changed
      else { race with policy := policy }
    | _, _ => race
  | .openTemp call =>
    match race.lock, race.phases call with
    | none, .changed =>
      { race with lock := some call, temp := some [] }.become call
        (.writing [] (stateText race.policy))
    | _, _ => race
  | .write call count =>
    match race.phases call with
    | .writing written rest =>
      { race with temp := race.temp.map (· ++ rest.take count) }.become call
        (.writing (written ++ rest.take count) (rest.drop count))
    | _ => race
  | .rename call =>
    match race.phases call with
    | .writing _ [] => { race with file := race.temp, temp := none, lock := none }.become call .idle
    | _ => race

/-! ## What holds -/

/-- No call is under way. -/
def ChangeRace.Quiet (race : ChangeRace) : Prop := ∀ call, race.phases call = .idle

/-- Nothing has happened yet. -/
structure ChangeRace.Fresh (race : ChangeRace) : Prop where
  /-- No call is under way. -/
  quiet : race.Quiet
  /-- The lock is free. -/
  free : race.lock = none
  /-- No change has succeeded. -/
  unchanged : race.changes = []

/-- When no call is under way, the policy is the first one with all changes made, and the state file
is its text as soon as there was a change. -/
def Persisted (start : ChangeRace) (race : ChangeRace) : Prop :=
  race.Quiet → race.policy = race.changes.foldl policyStep start.policy ∧
    (race.changes = [] ∧ race.file = start.file ∨
      race.file = some (stateText (race.changes.foldl policyStep start.policy)))

/-! ## The invariant -/

/-- A call that has the lock writes the policy as it is, and whenever the file is out of date a call
is going to write it. -/
structure Pending (start race : ChangeRace) : Prop where
  /-- The policy has all changes made. -/
  policy : race.policy = race.changes.foldl policyStep start.policy
  /-- A call that writes has the lock, has written what is in the temporary file, and writes the
  text of the policy. -/
  writes : ∀ call written rest, race.phases call = .writing written rest →
    race.lock = some call ∧ race.temp = some written ∧ written ++ rest = stateText race.policy
  /-- The file is up to date or as at first, or a call is going to write it. -/
  fresh : (∃ call, race.phases call ≠ .idle) ∨
    race.changes = [] ∧ race.file = start.file ∨ race.file = some (stateText race.policy)

/-- In the beginning nothing is to be done. -/
theorem ChangeRace.Fresh.pending {start : ChangeRace} (fresh : start.Fresh) :
    Pending start start where
  policy := by
    rw [fresh.unchanged]
    rfl
  writes := by
    intro call written rest stands
    rw [fresh.quiet call] at stands
    cases stands
  fresh := .inr (.inl ⟨fresh.unchanged, rfl⟩)

/-- When no call is under way, everything is done. -/
theorem Pending.persisted {start race : ChangeRace} (pending : Pending start race) :
    Persisted start race := by
  intro quiet
  refine ⟨pending.policy, ?_⟩
  rw [← pending.policy]
  exact pending.fresh.resolve_left fun ⟨call, works⟩ => works (quiet call)

/-! ## One step -/

/-- The policy after a change. -/
theorem perform_policy (policy : Policy) (action : Action) :
    (perform policy action).1 = policyStep policy action := by
  cases action <;> rfl

/-- A change that fails leaves the policy alone. -/
theorem perform_failed {policy : Policy} {action : Action}
    (failed : (perform policy action).2 ≠ 0) :
    (perform policy action).1 = policy := by
  cases action with
  | roleAdd name description alloc =>
    simp only [perform, roleAdd] at failed ⊢
    split_ifs at failed ⊢ <;> first | rfl | exact absurd rfl failed
  | roleRemove name =>
    simp only [perform, roleRemove] at failed ⊢
    split_ifs at failed ⊢ <;> first | rfl | exact absurd rfl failed
  | roleAddPerm role action resource =>
    simp only [perform, roleAddPerm] at failed ⊢
    split at failed
    · rfl
    · split_ifs at failed ⊢ <;> first | rfl | exact absurd rfl failed
  | roleRemovePerm role action resource =>
    simp only [perform, roleRemovePerm] at failed ⊢
    split at failed
    · rfl
    · split_ifs at failed ⊢ <;> first | rfl | exact absurd rfl failed
  | grant subject role alloc =>
    simp only [perform, grant] at failed ⊢
    split_ifs at failed ⊢ <;> first | rfl | exact absurd rfl failed
  | revoke subject role =>
    simp only [perform, revoke] at failed ⊢
    split_ifs at failed ⊢ <;> first | rfl | exact absurd rfl failed

section

variable {start race : ChangeRace} {call : Nat}

/-- Only one call writes, and none while the lock is free. -/
theorem Pending.unlocked (pending : Pending start race) (free : race.lock = none) (other : Nat)
    (written rest : CString) : race.phases other ≠ .writing written rest := by
  intro stands
  have locked := (pending.writes other written rest stands).1
  rw [free] at locked
  cases locked

/-- A change made while the lock is free. -/
theorem Pending.change (pending : Pending start race) (free : race.lock = none) (action : Action) :
    Pending start
      ({ race with policy := (perform race.policy action).1, changes := race.changes ++ [action]
        }.become call .changed) where
  policy := by
    show (perform race.policy action).1 = (race.changes ++ [action]).foldl policyStep start.policy
    rw [perform_policy, List.foldl_append, ← pending.policy]
    rfl
  writes := by
    intro other written rest stands
    have stands : Function.update race.phases call .changed other = .writing written rest := stands
    rw [Function.update_apply] at stands
    split at stands
    · cases stands
    · exact absurd stands (pending.unlocked free other written rest)
  fresh := by
    refine .inl ⟨call, ?_⟩
    show Function.update race.phases call .changed call ≠ .idle
    rw [Function.update_self]
    rintro ⟨⟩

/-- The one call that has the lock goes on writing. -/
theorem Pending.write (pending : Pending start race) {written rest : CString}
    (text : written ++ rest = stateText race.policy)
    (others : ∀ other front back, other ≠ call → race.phases other ≠ .writing front back) :
    Pending start ({ race with lock := some call, temp := some written }.become call
      (.writing written rest)) where
  policy := pending.policy
  writes := by
    intro other front back stands
    have stands : Function.update race.phases call (.writing written rest) other =
        .writing front back := stands
    by_cases same : other = call
    · subst same
      rw [Function.update_self] at stands
      obtain ⟨rfl, rfl⟩ := ChangePhase.writing.inj stands
      exact ⟨rfl, rfl, text⟩
    · rw [Function.update_of_ne same] at stands
      exact absurd stands (others other front back same)
  fresh := by
    refine .inl ⟨call, ?_⟩
    show Function.update race.phases call (.writing written rest) call ≠ .idle
    rw [Function.update_self]
    rintro ⟨⟩

/-- While a call writes no other does. -/
theorem Pending.others (pending : Pending start race) {written rest : CString}
    (stands : race.phases call = .writing written rest) (other : Nat) (front back : CString)
    (different : other ≠ call) : race.phases other ≠ .writing front back := by
  intro also
  have first := (pending.writes call written rest stands).1
  have second := (pending.writes other front back also).1
  rw [first] at second
  exact different (Option.some.inj second).symm

/-- The call that has written everything renames the file. -/
theorem Pending.rename (pending : Pending start race) {written : CString}
    (stands : race.phases call = .writing written []) :
    Pending start
      ({ race with file := race.temp, temp := none, lock := none }.become call .idle) where
  policy := pending.policy
  writes := by
    intro other front back also
    have also : Function.update race.phases call .idle other = .writing front back := also
    by_cases same : other = call
    · subst same
      rw [Function.update_self] at also
      cases also
    · rw [Function.update_of_ne same] at also
      exact absurd also (pending.others stands other front back same)
  fresh := by
    obtain ⟨-, temp, text⟩ := pending.writes call written [] stands
    rw [List.append_nil] at text
    refine .inr (.inr ?_)
    show race.temp = some (stateText race.policy)
    rw [temp, text]

/-- Every step keeps this. -/
theorem Pending.step (pending : Pending start race) (action : ChangeAction) :
    Pending start (changeStep race action) := by
  cases action with
  | change call action =>
    simp only [changeStep]
    split
    next free _ =>
      split
      next => exact pending.change free action
      next failed =>
        rw [perform_failed failed]
        exact pending
    next => exact pending
  | openTemp call =>
    simp only [changeStep]
    split
    next free _ =>
      exact pending.write (List.nil_append _) fun other front back _ =>
        pending.unlocked free other front back
    next => exact pending
  | write call count =>
    simp only [changeStep]
    split
    next written rest stands =>
      obtain ⟨lock, temp, text⟩ := pending.writes call written rest stands
      have more : written ++ rest.take count ++ rest.drop count = stateText race.policy := by
        rw [List.append_assoc, List.take_append_drop]
        exact text
      have next := pending.write more (pending.others stands)
      rw [← lock] at next
      rw [temp]
      exact next
    next => exact pending
  | rename call =>
    simp only [changeStep]
    split
    next written stands => exact pending.rename stands
    next => exact pending

end

/-! ## Runs -/

/-- In every interleaving of calls, whenever none is under way the policy is the first one with all
changes made in their order, and from the first change on the state file is its text. -/
theorem changes_persisted {start : ChangeRace} (fresh : start.Fresh) (actions : List ChangeAction) :
    AllStates changeStep (Persisted start) start actions :=
  (allStates_of_invariant (fun _ action pending => pending.step action) fresh.pending
    actions).mono fun _ pending => pending.persisted

/-- An empty policy without a state file. -/
def emptyPolicyRace : ChangeRace where
  policy := .empty
  lock := none
  file := none
  temp := none
  phases _ := .idle
  changes := []

/-- Two calls that change the policy before the first of them has written. -/
theorem changes_persisted_two : AllStates changeStep (Persisted emptyPolicyRace) emptyPolicyRace
    [.change 0 (.roleAdd (lit "admin") none true),
      .change 1 (.grant (lit "alice") (lit "admin") true), .openTemp 1, .write 1 20, .openTemp 0,
      .write 1 1000, .rename 1, .openTemp 0, .write 0 1000, .rename 0] :=
  changes_persisted ⟨fun _ => rfl, rfl, rfl⟩ _

end HwrunOs.Permission
