import HwrunOs.Sp.Accounts

/-!
# Concurrent saves of the user table

`sp_add_user` and `sp_del_user` change the table under the lock, but only the pass over the table
of `sp_users_save` is locked too: opening the temporary file, writing, closing and renaming it are
steps that those of other calls may come between, and all calls use one temporary file. A call
that opens it while another has it open cuts off what is written there, and of two calls only one
can rename it.
-/

namespace HwrunOs.Sp

open HwrunOs.Bytes HwrunOs.Runs

/-! ## The steps -/

/-- Where a call stands between its steps. -/
inductive SavePhase where
  /-- No call, or one that returned. -/
  | idle
  /-- The table is changed. -/
  | changed
  /-- The temporary file is open, as an inode. -/
  | opened (inode : Nat)
  /-- The table is formatted; one part of the text is written, the rest is in the buffer. -/
  | writing (inode : Nat) (written rest : CString)
  /-- `rename` failed. -/
  | failed
  deriving DecidableEq

/-- The inode a call has open, and what it has written there. -/
def SavePhase.held : SavePhase → Option (Nat × CString)
  | .opened inode => some (inode, [])
  | .writing inode written _ => some (inode, written)
  | _ => none

/-- The table, the directory and the calls under way. -/
structure SaveRace where
  /-- The users in memory. -/
  users : List User
  /-- The inode of `sp_users.conf`, when there is one. -/
  file : Option Nat
  /-- The inode of `sp_users.conf.tmp`, when there is one. -/
  temp : Option Nat
  /-- The bytes of each inode. -/
  contents : Nat → CString
  /-- How many inodes there have been. -/
  made : Nat
  /-- Where each call stands. -/
  phases : Nat → SavePhase
  /-- What the calls returned that changed the table. -/
  returned : List Int

/-- One step of one call. -/
inductive SaveAction where
  /-- A call up to the end of its first lock. -/
  | change (call : Nat) (change : UserCall)
  /-- `fopen` of the temporary file. -/
  | fopen (call : Nat)
  /-- The locked pass over the table. -/
  | pass (call : Nat)
  /-- The next bytes of the buffer are written. -/
  | write (call count : Nat)
  /-- `rename`, after everything is written and the file closed. -/
  | rename (call : Nat)
  /-- `unlink`, after `rename` failed. -/
  | unlink (call : Nat)

/-- A call goes on. -/
def SaveRace.become (race : SaveRace) (call : Nat) (phase : SavePhase) : SaveRace :=
  { race with phases := Function.update race.phases call phase }

/-- A call returns. -/
def SaveRace.leave (race : SaveRace) (call : Nat) (code : Int) : SaveRace :=
  { race.become call .idle with returned := race.returned ++ [code] }

/-- A file is written. -/
def SaveRace.fill (race : SaveRace) (inode : Nat) (bytes : CString) : SaveRace :=
  { race with contents := Function.update race.contents inode bytes }

section

variable (sha256 : List UInt8 → Digest)

/-- The table after the first part of a call, unless the call returns an error there. -/
def changeTable (users : List User) : UserCall → Option (List User)
  | .add user password roles enabled host =>
    match newUser sha256 users user password roles enabled host with
    | .ok record => some (record :: users)
    | .error _ => none
  | .del (some user) _ =>
    if (findUser users user).isSome then some (users.eraseP (User.isNamed user)) else none
  | .del none _ => none

/-- The system after a step. -/
def saveStep (race : SaveRace) : SaveAction → SaveRace
  | .change call change =>
    match race.phases call, changeTable sha256 race.users change with
    | .idle, some users => { race with users := users }.become call .changed
    | _, _ => race
  | .fopen call =>
    match race.phases call with
    | .changed =>
      match race.temp with
      | some inode => (race.fill inode []).become call (.opened inode)
      | none =>
        { race.fill race.made [] with temp := some race.made, made := race.made + 1 }.become call
          (.opened race.made)
    | _ => race
  | .pass call =>
    match race.phases call with
    | .opened inode => race.become call (.writing inode [] (usersText race.users))
    | _ => race
  | .write call count =>
    match race.phases call with
    | .writing inode written rest =>
      (race.fill inode (writeAt (race.contents inode) written.length (rest.take count))).become call
        (.writing inode (written ++ rest.take count) (rest.drop count))
    | _ => race
  | .rename call =>
    match race.phases call with
    | .writing _ _ [] =>
      match race.temp with
      | some inode => { race with file := some inode, temp := none }.leave call spOk
      | none => race.become call .failed
    | _ => race
  | .unlink call =>
    match race.phases call with
    | .failed => { race with temp := none }.leave call eio
    | _ => race

variable {sha256}

/-- A call is its first part and a save. -/
theorem perform_changeTable (ctx : Ctx) (change : UserCall) :
    match changeTable sha256 ctx.users change with
    | some users => ∃ save, change.perform sha256 ctx = usersSave { ctx with users := users } save
    | none => (change.perform sha256 ctx).1 = ctx ∧ (change.perform sha256 ctx).2 ≠ spOk := by
  cases change with
  | add user password roles enabled host =>
    unfold changeTable UserCall.perform
    dsimp only
    cases made : newUser sha256 ctx.users user password roles enabled host with
    | ok record => exact ⟨host.save, addUser_ok made⟩
    | error code =>
      dsimp only
      rw [addUser_error made]
      exact ⟨rfl, newUser_error made⟩
  | del user save =>
    have invalid : einval ≠ spOk := by decide
    have missing : enotfound ≠ spOk := by decide
    cases user with
    | none => exact ⟨rfl, invalid⟩
    | some name =>
      unfold changeTable UserCall.perform delUser
      dsimp only
      cases findUser ctx.users name with
      | none => exact ⟨rfl, missing⟩
      | some record => exact ⟨save, rfl⟩

/-- The steps of one call, one after the other. -/
def callSteps (call : Nat) (change : UserCall) (size : Nat) : List SaveAction :=
  [.change call change, .fopen call, .pass call, .write call size, .rename call]

/-- A call that no other comes between saves as `usersSave` does. -/
theorem run_callSteps {race : SaveRace} {call : Nat} {change : UserCall} {users : List User}
    (idle : race.phases call = .idle)
    (changed : changeTable sha256 race.users change = some users) :
    let after := run (saveStep sha256) race (callSteps call change (usersText users).length)
    after.users = users ∧ after.file.map after.contents = some (usersText users) ∧
      after.returned = race.returned ++ [spOk] := by
  have first : saveStep sha256 race (.change call change) =
      { race with users := users }.become call .changed := by
    simp only [saveStep, idle, changed]
  simp only [callSteps, run_cons, run_nil, first]
  cases race.temp with
  | some inode => simp [saveStep, SaveRace.become, SaveRace.fill, SaveRace.leave, writeAt]
  | none => simp [saveStep, SaveRace.become, SaveRace.fill, SaveRace.leave, writeAt]

end

/-! ## What should hold -/

/-- No call is under way. -/
def SaveRace.Quiet (race : SaveRace) : Prop := ∀ call, race.phases call = .idle

/-- The file holds the table. -/
def SaveRace.Written (race : SaveRace) : Prop :=
  race.file.map race.contents = some (usersText race.users)

/-- Every call that changed the table returned `SP_OK`, and the file holds the table whenever no
call is under way. -/
structure Saved (race : SaveRace) : Prop where
  /-- The calls succeed. -/
  returned : ∀ code ∈ race.returned, code = spOk
  /-- The file is up to date. -/
  written : race.Quiet → race.Written

/-- No call opens the temporary file while another has it open. -/
def Apart (race : SaveRace) : SaveAction → Prop
  | .fopen call => race.phases call = .changed → ∀ other, (race.phases other).held = none
  | _ => True

/-- A quiet system whose file holds the table, and no call of which has returned yet. -/
structure Idle (race : SaveRace) : Prop where
  /-- No call is under way. -/
  quiet : race.Quiet
  /-- The file holds the table. -/
  written : race.Written
  /-- The two names are for different files. -/
  apart : ∀ inode, race.temp = some inode → race.file ≠ some inode
  /-- Both are made. -/
  made : ∀ inode, race.file = some inode ∨ race.temp = some inode → inode < race.made
  /-- No call has returned. -/
  returned : race.returned = []

/-! ## The invariant -/

/-- A call is going to save the table as it is. -/
def SavePhase.Pending (users : List User) : SavePhase → Prop
  | .changed | .opened _ => True
  | .writing _ written rest => written ++ rest = usersText users
  | _ => False

/-- One call at a time has the temporary file, and whenever the file is not up to date a call is
going to save the table as it is. -/
structure Settling (race : SaveRace) : Prop where
  /-- The calls succeed. -/
  returned : ∀ code ∈ race.returned, code = spOk
  /-- No `rename` failed. -/
  renamed : ∀ call, race.phases call ≠ .failed
  /-- One call has the temporary file. -/
  alone : ∀ call other, (race.phases call).held ≠ none → (race.phases other).held ≠ none →
    call = other
  /-- It is the file with that name, and holds what is written. -/
  held : ∀ call inode written, (race.phases call).held = some (inode, written) →
    race.temp = some inode ∧ race.contents inode = written
  /-- The two names are for different files. -/
  apart : ∀ inode, race.temp = some inode → race.file ≠ some inode
  /-- Both are made. -/
  made : ∀ inode, race.file = some inode ∨ race.temp = some inode → inode < race.made
  /-- The file is up to date, or a call is going to save. -/
  fresh : (∃ call, (race.phases call).Pending race.users) ∨ race.Quiet ∧ race.Written

/-- In a quiet system nothing is to be done. -/
theorem Idle.settling {race : SaveRace} (idle : Idle race) : Settling race where
  returned := by
    rw [idle.returned]
    rintro code ⟨⟩
  renamed := by
    intro call
    rw [idle.quiet call]
    rintro ⟨⟩
  alone := by
    intro call other holds
    rw [idle.quiet call] at holds
    exact absurd rfl holds
  held := by
    intro call inode written holds
    rw [idle.quiet call] at holds
    cases holds
  apart := idle.apart
  made := idle.made
  fresh := .inr ⟨idle.quiet, idle.written⟩

/-- What is to be done is done when nothing is under way. -/
theorem Settling.saved {race : SaveRace} (settling : Settling race) : Saved race where
  returned := settling.returned
  written := by
    intro quiet
    rcases settling.fresh with ⟨call, pending⟩ | ⟨-, written⟩
    · rw [quiet call] at pending
      exact pending.elim
    · exact written

/-! ## One step -/

section

variable {race : SaveRace} {call : Nat}

/-- What another call has open stays the same. -/
theorem held_update {phases : Nat → SavePhase} {phase : SavePhase} {other : Nat}
    (different : other ≠ call) :
    (Function.update phases call phase other).held = (phases other).held := by
  rw [Function.update_of_ne different]

/-- A call that has changed the table is going to save it. -/
theorem Settling.change (settling : Settling race) (users : List User) :
    Settling ({ race with users := users }.become call .changed) where
  returned := settling.returned
  renamed := by
    intro other
    show Function.update race.phases call .changed other ≠ .failed
    rw [Function.update_apply]
    split
    · rintro ⟨⟩
    · exact settling.renamed other
  alone := by
    have before (other : Nat)
        (holds : (Function.update race.phases call .changed other).held ≠ none) :
        (race.phases other).held ≠ none := by
      rw [Function.update_apply] at holds
      split at holds
      · exact absurd rfl holds
      · exact holds
    intro first second one two
    exact settling.alone first second (before first one) (before second two)
  held := by
    intro other inode written holds
    have holds : (Function.update race.phases call .changed other).held = some (inode, written) :=
      holds
    rw [Function.update_apply] at holds
    split at holds
    · cases holds
    · exact settling.held other inode written holds
  apart := settling.apart
  made := settling.made
  fresh := by
    refine .inl ⟨call, ?_⟩
    show (Function.update race.phases call .changed call).Pending users
    rw [Function.update_self]
    trivial

/-- A step of the one call that has the temporary file, or opens it. -/
theorem Settling.own (settling : Settling race) {phase : SavePhase} {inode made : Nat}
    {bytes : CString}
    (others : ∀ other, other ≠ call → (race.phases other).held = none)
    (holds : phase.held = some (inode, bytes)) (spare : race.file ≠ some inode)
    (more : race.made ≤ made) (known : inode < made)
    (fresh : phase.Pending race.users ∨ ∃ other, other ≠ call ∧
      (race.phases other).Pending race.users) :
    Settling ({ race.fill inode bytes with temp := some inode, made := made }.become call phase)
    where
  returned := settling.returned
  renamed := by
    intro other
    show Function.update race.phases call phase other ≠ .failed
    rw [Function.update_apply]
    split
    · rintro rfl
      cases holds
    · exact settling.renamed other
  alone := by
    have this (other : Nat) (holds : (Function.update race.phases call phase other).held ≠ none) :
        other = call := by
      by_contra different
      rw [held_update different] at holds
      exact holds (others other different)
    intro first second one two
    exact (this first one).trans (this second two).symm
  held := by
    intro other place text has
    have has : (Function.update race.phases call phase other).held = some (place, text) := has
    by_cases same : other = call
    · subst same
      rw [Function.update_self, holds] at has
      obtain ⟨rfl, rfl⟩ := Prod.mk.inj (Option.some.inj has)
      exact ⟨rfl, Function.update_self _ _ _⟩
    · rw [held_update same, others other same] at has
      cases has
  apart := by
    rintro place ⟨⟩
    exact spare
  made := by
    rintro place (file | temp)
    · exact Nat.lt_of_lt_of_le (settling.made place (.inl file)) more
    · exact Option.some.inj temp ▸ known
  fresh := by
    rcases fresh with own | ⟨other, different, pending⟩
    · refine .inl ⟨call, ?_⟩
      show (Function.update race.phases call phase call).Pending race.users
      rw [Function.update_self]
      exact own
    · refine .inl ⟨other, ?_⟩
      show (Function.update race.phases call phase other).Pending race.users
      rw [Function.update_of_ne different]
      exact pending

/-- While one call has the temporary file no other has. -/
theorem Settling.others (settling : Settling race) (holds : (race.phases call).held ≠ none)
    {other : Nat} (different : other ≠ call) : (race.phases other).held = none := by
  by_contra also
  exact different (settling.alone other call also holds)

/-- The call that has the temporary file writes to it. -/
theorem Settling.fill (settling : Settling race) {phase : SavePhase} {inode : Nat}
    {written bytes : CString} (holds : (race.phases call).held = some (inode, written))
    (goes : phase.held = some (inode, bytes))
    (fresh : (race.phases call).Pending race.users → phase.Pending race.users) :
    Settling ((race.fill inode bytes).become call phase) := by
  have open' : (race.phases call).held ≠ none := by
    rw [holds]
    rintro ⟨⟩
  have temp := (settling.held call inode written holds).1
  have same : race.fill inode bytes =
      { race.fill inode bytes with temp := some inode, made := race.made } := by
    rw [← temp]
    rfl
  rw [same]
  refine settling.own (fun _ => settling.others open') goes (settling.apart inode temp)
    (Nat.le_refl _) (settling.made inode (.inr temp)) ?_
  rcases settling.fresh with ⟨other, pending⟩ | ⟨quiet, -⟩
  · by_cases own : other = call
    · exact .inl (fresh (own ▸ pending))
    · exact .inr ⟨other, own, pending⟩
  · rw [quiet call] at holds
    cases holds

/-- The call that has the temporary file renames it. -/
theorem Settling.rename (settling : Settling race) {inode : Nat} {written : CString}
    (stands : race.phases call = .writing inode written []) :
    Settling ({ race with file := some inode, temp := none }.leave call spOk) := by
  have holds : (race.phases call).held = some (inode, written) := by
    rw [stands]
    rfl
  have others {other : Nat} (different : other ≠ call) : (race.phases other).held = none := by
    refine settling.others ?_ different
    rw [holds]
    rintro ⟨⟩
  obtain ⟨temp, stored⟩ := settling.held call inode written holds
  have none (other : Nat) : (Function.update race.phases call .idle other).held = none := by
    by_cases same : other = call
    · subst same
      rw [Function.update_self]
      rfl
    · rw [held_update same]
      exact others same
  refine ⟨?_, ?_, ?_, ?_, ?_, ?_, ?_⟩
  · intro code member
    rcases List.mem_append.mp member with before | now
    · exact settling.returned code before
    · exact List.mem_singleton.mp now
  · intro other
    show Function.update race.phases call .idle other ≠ .failed
    rw [Function.update_apply]
    split
    · rintro ⟨⟩
    · exact settling.renamed other
  · intro first second one
    exact absurd (none first) one
  · intro other place text has
    exact absurd ((none other).symm.trans has) (by rintro ⟨⟩)
  · rintro place ⟨⟩
  · rintro place (file | gone)
    · exact Option.some.inj file ▸ settling.made inode (.inr temp)
    · cases gone
  · by_cases pending : ∃ other, other ≠ call ∧ (race.phases other).Pending race.users
    · obtain ⟨other, different, waits⟩ := pending
      refine .inl ⟨other, ?_⟩
      show (Function.update race.phases call .idle other).Pending race.users
      rw [Function.update_of_ne different]
      exact waits
    · -- No other call is under way, and what this one wrote is the table.
      refine .inr ⟨?_, ?_⟩
      · intro other
        show Function.update race.phases call .idle other = .idle
        by_cases same : other = call
        · subst same
          exact Function.update_self _ _ _
        · rw [Function.update_of_ne same]
          have free := others same
          have succeeded := settling.renamed other
          cases phase : race.phases other with
          | idle => rfl
          | changed => exact absurd ⟨other, same, by rw [phase]; trivial⟩ pending
          | opened inode =>
            rw [phase] at free
            cases free
          | writing inode written rest =>
            rw [phase] at free
            cases free
          | failed => exact absurd phase succeeded
      · show some (race.contents inode) = some (usersText race.users)
        rcases settling.fresh with ⟨other, waits⟩ | ⟨quiet, -⟩
        · obtain rfl : other = call := by
            by_contra different
            exact pending ⟨other, different, waits⟩
          rw [stands] at waits
          rw [stored, ← show written ++ [] = usersText race.users from waits, List.append_nil]
        · rw [quiet call] at stands
          cases stands

/-- Every step before which no other call has opened the file that it opens keeps this. -/
theorem Settling.step (settling : Settling race) (sha256 : List UInt8 → Digest)
    {action : SaveAction} (apart : Apart race action) :
    Settling (saveStep sha256 race action) := by
  cases action with
  | change call change =>
    simp only [saveStep]
    split
    · exact settling.change _
    · exact settling
  | fopen call =>
    simp only [saveStep]
    split
    next stands =>
      have others (other : Nat) (_ : other ≠ call) : (race.phases other).held = none :=
        apart stands other
      cases temp : race.temp with
      | some inode =>
        dsimp only
        have same : race.fill inode [] =
            { race.fill inode [] with temp := some inode, made := race.made } := by
          rw [← temp]
          rfl
        rw [same]
        exact settling.own others rfl (settling.apart inode temp) (Nat.le_refl _)
          (settling.made inode (.inr temp)) (.inl trivial)
      | none =>
        have spare : race.file ≠ some race.made := fun file =>
          Nat.lt_irrefl _ (settling.made race.made (.inl file))
        exact settling.own others rfl spare (Nat.le_succ _) (Nat.lt_succ_self _) (.inl trivial)
    next => exact settling
  | pass call =>
    simp only [saveStep]
    split
    next inode stands =>
      have holds : (race.phases call).held = some (inode, []) := by
        rw [stands]
        rfl
      have same : race.fill inode [] = race := by
        unfold SaveRace.fill
        rw [← (settling.held call inode [] holds).2, Function.update_eq_self]
      rw [← same]
      exact settling.fill holds rfl fun _ => List.nil_append _
    next => exact settling
  | write call count =>
    simp only [saveStep]
    split
    next inode written rest stands =>
      have holds : (race.phases call).held = some (inode, written) := by
        rw [stands]
        rfl
      rw [(settling.held call inode written holds).2, writeAt_end]
      refine settling.fill holds rfl ?_
      rw [stands]
      intro pending
      show written ++ rest.take count ++ rest.drop count = usersText race.users
      rw [List.append_assoc, List.take_append_drop]
      exact pending
    next => exact settling
  | rename call =>
    simp only [saveStep]
    split
    next inode written stands =>
      have temp : race.temp = some inode := by
        refine (settling.held call inode written ?_).1
        rw [stands]
        rfl
      rw [temp]
      exact settling.rename stands
    next => exact settling
  | unlink call =>
    simp only [saveStep]
    split
    next stands => exact absurd stands (settling.renamed call)
    next => exact settling

/-! ## After two calls have opened the file -/

/-- More calls have the temporary file open than there are temporary files, or a call has failed
for this. -/
inductive Doomed (race : SaveRace) : Prop
  /-- Two calls have it. -/
  | shared (first second : Nat) (different : first ≠ second)
    (one : (race.phases first).held ≠ none) (two : (race.phases second).held ≠ none)
  /-- A call has it, and it is renamed. -/
  | missing (call : Nat) (holds : (race.phases call).held ≠ none) (gone : race.temp = none)
  /-- `rename` failed. -/
  | failed (call : Nat) (stands : race.phases call = .failed)
  /-- A call returned an error. -/
  | reported (code : Int) (member : code ∈ race.returned) (error : code ≠ spOk)

/-- No step of a call leads out of this that leaves the call the file it has, and the file its
name. -/
theorem Doomed.goOn (doomed : Doomed race) {next : SaveRace} {phase : SavePhase}
    (phases : next.phases = Function.update race.phases call phase)
    (holds : (race.phases call).held ≠ none → phase.held ≠ none)
    (succeeded : race.phases call ≠ .failed) (temp : race.temp = none → next.temp = none)
    (returned : next.returned = race.returned) : Doomed next := by
  have still (other : Nat) (has : (race.phases other).held ≠ none) :
      (next.phases other).held ≠ none := by
    rw [phases, Function.update_apply]
    split
    next same => exact holds (same ▸ has)
    next => exact has
  cases doomed with
  | shared first second different one two =>
    exact .shared first second different (still first one) (still second two)
  | missing other has gone => exact .missing other (still other has) (temp gone)
  | failed other stands =>
    refine .failed other ?_
    rw [phases, Function.update_of_ne]
    · exact stands
    · rintro rfl
      exact succeeded stands
  | reported code member error => exact .reported code (returned ▸ member) error

/-- A call opens a file of its own. -/
theorem Doomed.create (doomed : Doomed race) (stands : race.phases call = .changed) :
    Doomed ({ race.fill race.made [] with temp := some race.made, made := race.made + 1 }.become
      call (.opened race.made)) := by
  have holds : (race.phases call).held = none := by
    rw [stands]
    rfl
  have opens : (Function.update race.phases call (.opened race.made) call).held ≠ none := by
    rw [Function.update_self]
    rintro ⟨⟩
  have still (other : Nat) (has : (race.phases other).held ≠ none) :
      other ≠ call ∧ (Function.update race.phases call (.opened race.made) other).held ≠ none := by
    have different : other ≠ call := by
      rintro rfl
      exact has holds
    exact ⟨different, by rwa [held_update different]⟩
  cases doomed with
  | shared first second different one two =>
    exact .shared first second different (still first one).2 (still second two).2
  | missing other has _ => exact .shared other call (still other has).1 (still other has).2 opens
  | failed other failed =>
    refine .failed other ?_
    show Function.update race.phases call (.opened race.made) other = .failed
    rw [Function.update_of_ne]
    · exact failed
    · rintro rfl
      rw [failed] at stands
      cases stands
  | reported code member error => exact .reported code member error

/-- A call renames a file that exists. -/
theorem Doomed.rename (doomed : Doomed race) {inode : Nat} {written : CString}
    (stands : race.phases call = .writing inode written []) (temp : race.temp ≠ none)
    (file : Option Nat) : Doomed ({ race with file := file, temp := none }.leave call spOk) := by
  have missing (other : Nat) (different : other ≠ call) (has : (race.phases other).held ≠ none) :
      Doomed ({ race with file := file, temp := none }.leave call spOk) := by
    refine .missing other ?_ rfl
    show (Function.update race.phases call .idle other).held ≠ none
    rwa [held_update different]
  cases doomed with
  | shared first second different one two =>
    by_cases own : first = call
    · exact missing second (fun same => different (own.trans same.symm)) two
    · exact missing first own one
  | missing _ _ gone => exact absurd gone temp
  | failed other failed =>
    refine .failed other ?_
    show Function.update race.phases call .idle other = .failed
    rw [Function.update_of_ne]
    · exact failed
    · rintro rfl
      rw [failed] at stands
      cases stands
  | reported code member error => exact .reported code (List.mem_append_left _ member) error

/-- No step leads out of this. -/
theorem Doomed.step (doomed : Doomed race) (sha256 : List UInt8 → Digest) (action : SaveAction) :
    Doomed (saveStep sha256 race action) := by
  cases action with
  | change call change =>
    simp only [saveStep]
    split
    next stands _ =>
      refine doomed.goOn rfl ?_ ?_ id rfl
      · rw [stands]
        exact id
      · rw [stands]
        rintro ⟨⟩
    next => exact doomed
  | fopen call =>
    simp only [saveStep]
    split
    next stands =>
      split
      next =>
        refine doomed.goOn rfl ?_ ?_ id rfl
        · intro _
          rintro ⟨⟩
        · rw [stands]
          rintro ⟨⟩
      next => exact doomed.create stands
    next => exact doomed
  | pass call =>
    simp only [saveStep]
    split
    next stands =>
      refine doomed.goOn rfl ?_ ?_ id rfl
      · intro _
        rintro ⟨⟩
      · rw [stands]
        rintro ⟨⟩
    next => exact doomed
  | write call count =>
    simp only [saveStep]
    split
    next stands =>
      refine doomed.goOn rfl ?_ ?_ id rfl
      · intro _
        rintro ⟨⟩
      · rw [stands]
        rintro ⟨⟩
    next => exact doomed
  | rename call =>
    simp only [saveStep]
    split
    next stands =>
      split
      next temp => exact doomed.rename stands (by rw [temp]; rintro ⟨⟩) _
      next => exact .failed call (Function.update_self _ _ _)
    next => exact doomed
  | unlink call =>
    have broken : eio ≠ spOk := by decide
    simp only [saveStep]
    split
    next => exact .reported eio (List.mem_append_right _ List.mem_cons_self) broken
    next => exact doomed

/-- A call that opens the temporary file of another leads to it. -/
theorem doomed_of_not_apart (sha256 : List UInt8 → Digest) {action : SaveAction}
    (together : ¬ Apart race action) : Doomed (saveStep sha256 race action) := by
  cases action with
  | fopen call =>
    unfold Apart at together
    push Not at together
    obtain ⟨stands, other, has⟩ := together
    have different : other ≠ call := by
      rintro rfl
      rw [stands] at has
      exact has rfl
    have still (inode : Nat) :
        (Function.update race.phases call (.opened inode) other).held ≠ none := by
      rwa [held_update different]
    have opens (inode : Nat) :
        (Function.update race.phases call (.opened inode) call).held ≠ none := by
      rw [Function.update_self]
      rintro ⟨⟩
    simp only [saveStep]
    rw [stands]
    dsimp only
    split
    · exact .shared other call different (still _) (opens _)
    · exact .shared other call different (still _) (opens _)
  | _ => exact absurd trivial together

/-- When no call is under way any more, one has returned an error. -/
theorem Doomed.lost (doomed : Doomed race) (quiet : race.Quiet) : ¬ Saved race := by
  intro saved
  cases doomed with
  | shared first second different one two =>
    rw [quiet first] at one
    exact one rfl
  | missing call holds gone =>
    rw [quiet call] at holds
    exact holds rfl
  | failed call stands =>
    rw [quiet call] at stands
    cases stands
  | reported code member error => exact error (saved.returned code member)

end

/-! ## Runs -/

/-- In every interleaving in which no call opens the temporary file while another has it open, all
calls that change the table succeed and the file holds the table whenever no call is under way. In
any other interleaving, after which no call is under way, one of them has failed. -/
theorem run_saved_iff (sha256 : List UInt8 → Digest) {race : SaveRace} (idle : Idle race)
    (actions : List SaveAction) :
    (AllSteps (saveStep sha256) Apart race actions →
      AllStates (saveStep sha256) Saved race actions) ∧
    ((run (saveStep sha256) race actions).Quiet →
      AllStates (saveStep sha256) Saved race actions →
        AllSteps (saveStep sha256) Apart race actions) := by
  constructor
  · intro apart
    have settling := allStates_of_steps (fun _ _ settling apart => settling.step sha256 apart)
      idle.settling apart
    exact settling.mono fun _ settling => settling.saved
  · intro quiet saved
    have trapped := allSteps_or_trap (fun _ _ together => doomed_of_not_apart sha256 together)
      (fun _ action doomed => doomed.step sha256 action) race actions
    exact trapped.resolve_right fun doomed => doomed.lost quiet saved.last

/-! ## Two calls -/

/-- A table without users, saved. -/
def emptyRace : SaveRace where
  users := []
  file := some 0
  temp := none
  contents _ := usersText []
  made := 1
  phases _ := .idle
  returned := []

/-- Nothing is under way there. -/
theorem emptyRace_idle : Idle emptyRace where
  quiet _ := rfl
  written := rfl
  apart := by rintro inode ⟨⟩
  made := by
    rintro inode (⟨⟨⟩⟩ | ⟨⟨⟩⟩)
    decide
  returned := rfl

/-- Two calls that change the table one after the other, of which the second saves after the
first. -/
theorem saved_in_turn : AllStates (saveStep zeroHash) Saved emptyRace
    [.change 0 (secretAdd (lit "alice") .done), .change 1 (secretAdd (lit "bob") .done), .fopen 0,
      .pass 0, .write 0 1000, .rename 0, .fopen 1, .pass 1, .write 1 1000, .rename 1] := by
  refine (run_saved_iff zeroHash emptyRace_idle _).1 ?_
  refine ⟨trivial, trivial, ?_, trivial, trivial, trivial, ?_, trivial, trivial, trivial, trivial⟩
  · rintro - other
    match other with
    | 0 => rfl
    | 1 => rfl
    | _ + 2 => rfl
  · rintro - other
    match other with
    | 0 => rfl
    | 1 => rfl
    | _ + 2 => rfl

/-- Two calls that have the temporary file open together: the second adds its user and returns an
error. -/
theorem saved_together_fails :
    (run (saveStep zeroHash) emptyRace
      [.change 0 (secretAdd (lit "alice") .done), .change 1 (secretAdd (lit "bob") .done), .fopen 0,
        .fopen 1, .pass 0, .pass 1, .write 0 1000, .rename 0, .write 1 1000, .rename 1,
        .unlink 1]).returned = [spOk, eio] ∧
    ¬ AllStates (saveStep zeroHash) Saved emptyRace
      [.change 0 (secretAdd (lit "alice") .done), .change 1 (secretAdd (lit "bob") .done), .fopen 0,
        .fopen 1, .pass 0, .pass 1, .write 0 1000, .rename 0, .write 1 1000, .rename 1,
        .unlink 1] := by
  have returned : (run (saveStep zeroHash) emptyRace
      [.change 0 (secretAdd (lit "alice") .done), .change 1 (secretAdd (lit "bob") .done), .fopen 0,
        .fopen 1, .pass 0, .pass 1, .write 0 1000, .rename 0, .write 1 1000, .rename 1,
        .unlink 1]).returned = [spOk, eio] := by decide +kernel
  refine ⟨returned, ?_⟩
  intro saved
  have error := saved.last.returned eio (by rw [returned]; exact .tail _ (.head _))
  exact absurd error (by decide)

end HwrunOs.Sp
