import HwrunOs.Param.Walk

/-!
# Commits of changed parameters

A call of `hw_param_set_value` that changed the tree ends in `bus_on_param_revision`, which saves
the tree as `params.state`, adds the file and commits. The flag `param_git_committing` keeps a call
out while another is there: it is tested and set in two steps, and a call that finds it set returns.
Only the change of the tree is made under a lock, so between all other steps those of other calls
may come. A watcher that is told of the change may set parameters in its turn, which are calls of
their own.
-/

namespace HwrunOs.Bus

open HwrunOs.Bytes HwrunOs.Runs HwrunOs.Trees HwrunOs.Param

/-! ## What the hook finds -/

/-- The implementation of the git protocol. -/
structure GitRoute where
  /-- The pointers `add` and `commit` are set. -/
  hasOps : Bool
  /-- `auto_commit`, when there is a configuration. -/
  autoCommit : Option Bool

/-- The bus as `bus_on_param_revision` reads it. -/
structure RevisionBus where
  /-- `initialized` and `running`, and the hook is set. -/
  active : Bool
  /-- The route of the git protocol, when it is resolved and has an implementation. -/
  route : Option GitRoute
  /-- `dirs[HWPARAM_GIT]`. -/
  gitDir : CString

/-- The tests before the file is saved. -/
def RevisionBus.commits (bus : RevisionBus) : Bool :=
  match bus.route with
  | none => false
  | some route => route.hasOps && route.autoCommit != some false && bus.gitDir != []

/-- The git plugin is started with `auto_commit`. -/
structure RevisionBus.Ready (bus : RevisionBus) : Prop where
  /-- The hook goes on. -/
  active : bus.active = true
  /-- It comes to save the file. -/
  commits : bus.commits = true

/-! ## The steps -/

/-- Where a call stands between its steps. -/
inductive RevisionPhase where
  /-- No call, or one that returned. -/
  | idle
  /-- The tree is changed; the watchers are told, and the flag is to be tested. -/
  | changed
  /-- The flag was found clear. -/
  | tested
  /-- The flag is set. -/
  | entered
  /-- The file is open: where the walk is, the bytes written, and the bytes in the buffer. -/
  | saving (walk : Walk) (written buffered : CString)
  /-- The file is saved and closed. -/
  | saved
  /-- The file is added. -/
  | added
  /-- Only the flag is to be cleared. -/
  | leaving
  deriving DecidableEq

/-- The call has tested the flag and not cleared it. -/
def RevisionPhase.inside : RevisionPhase → Bool
  | .idle | .changed => false
  | _ => true

/-- The call has set the flag and not cleared it. -/
def RevisionPhase.guarded : RevisionPhase → Bool
  | .idle | .changed | .tested => false
  | _ => true

/-- The call changed the tree and has not begun to save it. -/
def RevisionPhase.early : RevisionPhase → Bool
  | .changed | .tested | .entered => true
  | _ => false

/-- The call saves the tree or has saved it, and has not committed. -/
def RevisionPhase.late : RevisionPhase → Bool
  | .saving _ _ _ | .saved | .added => true
  | _ => false

/-- The tree, the flag, the file, what git has, and the calls under way. -/
structure RevisionRace where
  /-- The parameters. -/
  tree : ParamTree
  /-- `param_git_committing`. -/
  committing : Bool
  /-- `params.state`. -/
  file : Option CString
  /-- The file as it was added last. -/
  staged : Option CString
  /-- The file as it was committed last. -/
  committed : Option CString
  /-- Where each call stands. -/
  phases : Nat → RevisionPhase
  /-- The sets in the order of their locks, with their results. -/
  sets : List (SetCall × Int)

/-- One step of one call. -/
inductive RevisionAction where
  /-- The locked part of `hw_param_set_value`. -/
  | set (call : Nat) (args : SetCall)
  /-- `if (bus->param_git_committing) return;` -/
  | test (call : Nat)
  /-- `bus->param_git_committing = 1;` -/
  | enter (call : Nat)
  /-- The tests of the bus, and `fopen` with its success. -/
  | fopen (call : Nat) (opened : Bool)
  /-- The next pointer of the tree is read. -/
  | walk (call : Nat)
  /-- Bytes of the buffer are written. -/
  | flush (call count : Nat)
  /-- `fclose`, at the end of the walk. -/
  | fclose (call : Nat)
  /-- `add`, with its result. -/
  | add (call : Nat) (rc : Int)
  /-- `commit`, with its result. -/
  | commit (call : Nat) (rc : Int)
  /-- `bus->param_git_committing = 0;` -/
  | clear (call : Nat)

/-- A call goes on. -/
def RevisionRace.become (race : RevisionRace) (call : Nat) (phase : RevisionPhase) : RevisionRace :=
  { race with phases := Function.update race.phases call phase }

/-- The buffer is written behind what the call has written. -/
def RevisionRace.write (race : RevisionRace) (written piece : CString) : RevisionRace :=
  { race with file := some (writeAt (race.file.getD []) written.length piece) }

/-- The system after a step. -/
def revisionStep (bus : RevisionBus) (race : RevisionRace) : RevisionAction → RevisionRace
  | .set call args =>
    match race.phases call with
    | .idle =>
      let (tree, rc) := hwParamSet race.tree args.key args.value args.alloc
      { race with tree := tree, sets := race.sets ++ [(args, rc)] }.become call
        (if rc = Param.hwrunOk then .changed else .idle)
    | _ => race
  | .test call =>
    match race.phases call with
    | .changed =>
      race.become call (if !bus.active || race.committing then .idle else .tested)
    | _ => race
  | .enter call =>
    match race.phases call with
    | .tested => { race with committing := true }.become call .entered
    | _ => race
  | .fopen call opened =>
    match race.phases call with
    | .entered =>
      if bus.commits && opened then
        { race with file := some [] }.become call (.saving walkStart [] [])
      else race.become call .leaving
    | _ => race
  | .walk call =>
    match race.phases call with
    | .saving walk written buffered =>
      let (line, walk) := walkStep race.tree walk
      race.become call (.saving walk written (buffered ++ line))
    | _ => race
  | .flush call count =>
    match race.phases call with
    | .saving walk written buffered =>
      (race.write written (buffered.take count)).become call
        (.saving walk (written ++ buffered.take count) (buffered.drop count))
    | _ => race
  | .fclose call =>
    match race.phases call with
    | .saving [] written buffered => (race.write written buffered).become call .saved
    | _ => race
  | .add call rc =>
    match race.phases call with
    | .saved =>
      if rc = Param.hwrunOk then { race with staged := race.file }.become call .added
      else race.become call .leaving
    | _ => race
  | .commit call rc =>
    match race.phases call with
    | .added =>
      { race with
        committed :=
          if rc = Param.hwrunOk then race.staged else race.committed }.become call .leaving
    | _ => race
  | .clear call =>
    match race.phases call with
    | .leaving => { race with committing := false }.become call .idle
    | _ => race

/-! ## One call alone -/

section

variable {bus : RevisionBus} {race : RevisionRace} {call : Nat}

/-- A walk that no other call comes between collects its text. -/
theorem run_walks {walk : Walk} {written buffered : CString}
    (stands : race.phases call = .saving walk written buffered) (count : Nat) :
    ∃ lines, run (revisionStep bus) race (List.replicate count (.walk call)) =
        race.become call (.saving ((fun walk => (walkStep race.tree walk).2)^[count] walk) written
          (buffered ++ lines)) ∧
      lines ++ walkText race.tree ((fun walk => (walkStep race.tree walk).2)^[count] walk) =
        walkText race.tree walk := by
  induction count generalizing race walk buffered with
  | zero =>
    refine ⟨[], ?_, rfl⟩
    rw [List.append_nil, List.replicate_zero, run_nil, Function.iterate_zero, id, ← stands]
    unfold RevisionRace.become
    rw [Function.update_eq_self]
  | succ count ih =>
    have step : revisionStep bus race (.walk call) =
        race.become call (.saving (walkStep race.tree walk).2 written
          (buffered ++ (walkStep race.tree walk).1)) := by
      simp only [revisionStep, stands]
    have next : (race.become call (.saving (walkStep race.tree walk).2 written
        (buffered ++ (walkStep race.tree walk).1))).phases call =
          .saving (walkStep race.tree walk).2 written (buffered ++ (walkStep race.tree walk).1) :=
      Function.update_self _ _ _
    obtain ⟨lines, ends, text⟩ := ih next
    refine ⟨(walkStep race.tree walk).1 ++ lines, ?_, ?_⟩
    · rw [List.replicate_succ, run_cons, step, ends, ← List.append_assoc]
      unfold RevisionRace.become
      rw [Function.update_idem]
      rfl
    · rw [walkText_step race.tree walk, List.append_assoc]
      exact congrArg _ text

/-- A call that no other comes between saves the tree and commits it. -/
theorem run_call (ready : bus.Ready) (idle : race.phases call = .idle)
    (clear : race.committing = false) {args : SetCall}
    (success : (hwParamSet race.tree args.key args.value args.alloc).2 = Param.hwrunOk) :
    ∃ actions, let after := run (revisionStep bus) race actions
      after.tree = setValueStep race.tree args ∧
        after.committed = some (hwParamSaveFile after.tree) ∧ after.file = after.committed ∧
        after.phases = race.phases ∧ after.committing = false := by
  obtain ⟨count, ends⟩ := walk_ends (setValueStep race.tree args) walkStart
  -- The state in which the walk begins.
  let opened : RevisionRace :=
    { race with
      tree := setValueStep race.tree args
      sets := race.sets ++ [(args, Param.hwrunOk)]
      committing := true
      file := some []
      phases := Function.update race.phases call (.saving walkStart [] []) }
  have begins : run (revisionStep bus) race
      [.set call args, .test call, .enter call, .fopen call true] = opened := by
    simp [revisionStep, RevisionRace.become, idle, clear, success, ready.active, ready.commits,
      opened, setValueStep]
  have stands : opened.phases call = .saving walkStart [] [] := Function.update_self _ _ _
  obtain ⟨lines, walked, text⟩ := @run_walks bus opened call walkStart [] [] stands count
  have tree : opened.tree = setValueStep race.tree args := rfl
  rw [tree, ends, walkText_start] at text
  rw [tree, ends] at walked
  refine ⟨[.set call args, .test call, .enter call, .fopen call true] ++
    (List.replicate count (.walk call) ++
      [.fclose call, .add call Param.hwrunOk, .commit call Param.hwrunOk, .clear call]), ?_⟩
  rw [run_append, begins, run_append, walked]
  have whole : lines = hwParamSaveFile (setValueStep race.tree args) := by
    rw [← text]
    exact (List.append_nil _).symm
  simp [revisionStep, RevisionRace.become, RevisionRace.write, writeAt, opened, whole, ← idle]

end

/-! ## What should hold -/

/-- No call is under way. -/
def RevisionRace.Quiet (race : RevisionRace) : Prop := ∀ call, race.phases call = .idle

/-- When no call is under way, the tree has all sets made, and from the first successful one on the
text of the tree is what was committed last. -/
def Committed (start race : RevisionRace) : Prop :=
  race.Quiet → race.tree = run setValueStep start.tree (race.sets.map Prod.fst) ∧
    ((∃ set ∈ race.sets, set.2 = Param.hwrunOk) → race.committed = some (hwParamSaveFile race.tree))

/-- Nothing has happened yet. -/
structure RevisionRace.Fresh (race : RevisionRace) : Prop where
  /-- No call is under way. -/
  quiet : race.Quiet
  /-- The flag is clear. -/
  clear : race.committing = false
  /-- No parameter was set. -/
  unset : race.sets = []

/-- The file is opened, and git succeeds: a commit fails only when there is nothing to commit. -/
def GitSucceeds (race : RevisionRace) : RevisionAction → Prop
  | .fopen _ opened => opened = true
  | .add _ rc => rc = Param.hwrunOk
  | .commit _ rc => rc = Param.hwrunOk ∨ race.staged = race.committed
  | _ => True

instance (race : RevisionRace) (action : RevisionAction) : Decidable (GitSucceeds race action) :=
  match action with
  | .fopen _ opened => inferInstanceAs (Decidable (opened = true))
  | .add _ rc => inferInstanceAs (Decidable (rc = Param.hwrunOk))
  | .commit _ rc => inferInstanceAs (Decidable (rc = Param.hwrunOk ∨ race.staged = race.committed))
  | .set _ _ | .test _ | .enter _ | .walk _ | .flush _ _ | .fclose _ | .clear _ =>
    inferInstanceAs (Decidable True)

/-- A call tests the flag only when no other is between its test and the clearing, unless that
other has set the flag and not opened the file yet. -/
def InTurn (race : RevisionRace) : RevisionAction → Prop
  | .test _ => ∀ other, (race.phases other).inside = true →
      race.committing = true ∧ race.phases other = .entered
  | _ => True

/-! ## The invariant -/

/-- What a call that stands there saves and commits is the tree as it is. -/
def RevisionRace.Keeps (race : RevisionRace) : RevisionPhase → Prop
  | .saving walk written buffered =>
    written ++ buffered ++ walkText race.tree walk = hwParamSaveFile race.tree
  | .saved => race.file = some (hwParamSaveFile race.tree)
  | .added => race.staged = some (hwParamSaveFile race.tree)
  | _ => True

/-- One call at a time saves and commits, and a change that is not committed is that of a call that
is going to save, or part of what is saved now. -/
structure Settled (start race : RevisionRace) : Prop where
  /-- The tree has all sets made. -/
  tree : race.tree = run setValueStep start.tree (race.sets.map Prod.fst)
  /-- No two calls are past the flag. -/
  one : ∀ first second, (race.phases first).inside = true → (race.phases second).inside = true →
    first = second
  /-- The flag is set when a call has set it. -/
  flag : race.committing = true ↔ ∃ call, (race.phases call).guarded = true
  /-- The file has what the call has written that saves it. -/
  written : ∀ call walk (written buffered : CString),
    race.phases call = .saving walk written buffered → race.file = some written
  /-- A call is going to save the tree, or the tree is committed or in the hands of one that is. -/
  fresh : (∃ set ∈ race.sets, set.2 = Param.hwrunOk) →
    (∃ call, (race.phases call).early = true) ∨ (∀ call, race.Keeps (race.phases call)) ∧
      (race.committed = some (hwParamSaveFile race.tree) ∨ ∃ call, (race.phases call).late = true)

/-- In the beginning nothing is to be committed. -/
theorem RevisionRace.Fresh.settled {start : RevisionRace} (fresh : start.Fresh) :
    Settled start start where
  tree := by
    rw [fresh.unset]
    rfl
  one := by
    intro first second inside
    rw [fresh.quiet first] at inside
    cases inside
  flag := by
    constructor
    · intro set
      rw [fresh.clear] at set
      cases set
    · rintro ⟨call, guarded⟩
      rw [fresh.quiet call] at guarded
      cases guarded
  written := by
    intro call walk written buffered stands
    rw [fresh.quiet call] at stands
    cases stands
  fresh := by
    rintro ⟨set, member, -⟩
    rw [fresh.unset] at member
    cases member

/-- When no call is under way, everything is committed. -/
theorem Settled.committed {start race : RevisionRace} (settled : Settled start race) :
    Committed start race := by
  intro quiet
  refine ⟨settled.tree, fun changed => ?_⟩
  obtain ⟨call, early⟩ | ⟨-, up | ⟨call, late⟩⟩ := settled.fresh changed
  · rw [quiet call] at early
    cases early
  · exact up
  · rw [quiet call] at late
    cases late

/-- A call that has set the flag has tested it. -/
theorem RevisionPhase.guarded_inside {phase : RevisionPhase} (guarded : phase.guarded = true) :
    phase.inside = true := by
  cases phase <;> first | rfl | cases guarded

/-- So has one that saves. -/
theorem RevisionPhase.late_inside {phase : RevisionPhase} (late : phase.late = true) :
    phase.inside = true := by
  cases phase <;> first | rfl | cases late

/-- A call that has not tested the flag has saved nothing. -/
theorem RevisionRace.keeps_outside (race : RevisionRace) {phase : RevisionPhase}
    (outside : phase.inside = false) : race.Keeps phase := by
  cases phase <;> trivial

/-! ## One step -/

section

variable {start race : RevisionRace} {call : Nat} {bus : RevisionBus}

/-- While a call is past the flag, every other has not come to it. -/
theorem Settled.outside (settled : Settled start race)
    (inside : (race.phases call).inside = true) {other : Nat} (different : other ≠ call) :
    (race.phases other).inside = false := by
  by_contra also
  rw [Bool.not_eq_false] at also
  exact different (settled.one other call also inside)

/-- The one call past the flag goes on. -/
theorem Settled.move (settled : Settled start race) {here : RevisionPhase}
    (stands : race.phases call = here) (past : here.inside = true) {next : RevisionRace}
    {phase : RevisionPhase} (tree : next.tree = race.tree) (sets : next.sets = race.sets)
    (phases : next.phases = Function.update race.phases call phase)
    (flag : next.committing = phase.guarded)
    (written : ∀ walk (written buffered : CString), phase = .saving walk written buffered →
      next.file = some written)
    (early : here.early = true → phase.early = true ∨ next.Keeps phase ∧ phase.late = true)
    (keeps : here.early = false → race.Keeps here → next.Keeps phase)
    (late : phase.late = false → race.Keeps here →
      race.committed = some (hwParamSaveFile race.tree) ∨ here.late = true →
      next.committed = some (hwParamSaveFile race.tree)) : Settled start next := by
  have inside : (race.phases call).inside = true := by rw [stands, past]
  have own : next.phases call = phase := by rw [phases, Function.update_self]
  have still {other : Nat} (different : other ≠ call) : next.phases other = race.phases other := by
    rw [phases, Function.update_of_ne different]
  have outside {other : Nat} (different : other ≠ call) : (next.phases other).inside = false := by
    rw [still different]
    exact settled.outside inside different
  have only {other : Nat} (also : (next.phases other).inside = true) : other = call := by
    by_contra different
    rw [outside different] at also
    cases also
  refine ⟨?_, ?_, ?_, ?_, ?_⟩
  · rw [tree, sets]
    exact settled.tree
  · intro first second one two
    rw [only one, only two]
  · rw [flag]
    constructor
    · intro guarded
      exact ⟨call, own ▸ guarded⟩
    · rintro ⟨other, guarded⟩
      rw [only (RevisionPhase.guarded_inside guarded), own] at guarded
      exact guarded
  · intro other walk front back stands
    have same : other = call := by
      apply only
      rw [stands]
      rfl
    rw [same, own] at stands
    exact written walk front back stands
  · rw [sets, tree]
    intro changed
    have all (kept : next.Keeps phase) (other : Nat) : next.Keeps (next.phases other) := by
      by_cases same : other = call
      · rw [same, own]
        exact kept
      · exact next.keeps_outside (outside same)
    by_cases first : here.early = true
    · obtain again | ⟨kept, saves⟩ := early first
      · exact .inl ⟨call, own ▸ again⟩
      · exact .inr ⟨all kept, .inr ⟨call, own ▸ saves⟩⟩
    · rw [Bool.not_eq_true] at first
      obtain ⟨other, before⟩ | ⟨kept, up⟩ := settled.fresh changed
      · have different : other ≠ call := by
          rintro rfl
          rw [stands, first] at before
          cases before
        exact .inl ⟨other, (still different).symm ▸ before⟩
      · have kept := kept call
        rw [stands] at kept
        refine .inr ⟨all (keeps first kept), ?_⟩
        by_cases saves : phase.late = true
        · exact .inr ⟨call, own ▸ saves⟩
        · rw [Bool.not_eq_true] at saves
          refine .inl (late saves kept (up.imp_right ?_))
          rintro ⟨other, holds⟩
          rwa [settled.one other call (RevisionPhase.late_inside holds) inside, stands] at holds

/-- A call that has not set the flag goes on without setting it. -/
theorem Settled.approach (settled : Settled start race)
    (before : (race.phases call).guarded = false) {next : RevisionRace} {phase : RevisionPhase}
    (unset : phase.guarded = false)
    (alone : phase.inside = true → ∀ other, (race.phases other).inside = false)
    (tree : next.tree = run setValueStep start.tree (next.sets.map Prod.fst))
    (phases : next.phases = Function.update race.phases call phase)
    (flag : next.committing = race.committing) (file : next.file = race.file)
    (fresh : (∃ set ∈ next.sets, set.2 = Param.hwrunOk) →
      (∃ call, (next.phases call).early = true) ∨ (∀ call, next.Keeps (next.phases call)) ∧
        (next.committed = some (hwParamSaveFile next.tree) ∨
          ∃ call, (next.phases call).late = true)) : Settled start next := by
  have own : next.phases call = phase := by rw [phases, Function.update_self]
  have still {other : Nat} (different : other ≠ call) : next.phases other = race.phases other := by
    rw [phases, Function.update_of_ne different]
  refine ⟨tree, ?_, ?_, ?_, fresh⟩
  · intro first second one two
    by_cases enters : phase.inside = true
    · have only {other : Nat} (also : (next.phases other).inside = true) : other = call := by
        by_contra different
        rw [still different, alone enters other] at also
        cases also
      rw [only one, only two]
    · have others {other : Nat} (also : (next.phases other).inside = true) :
          (race.phases other).inside = true := by
        by_cases same : other = call
        · rw [same, own] at also
          exact absurd also enters
        · rwa [still same] at also
      exact settled.one first second (others one) (others two)
  · rw [flag, settled.flag]
    refine exists_congr fun other => ?_
    by_cases same : other = call
    · rw [same, own, unset, before]
    · rw [still same]
  · intro other walk written buffered stands
    rw [file]
    by_cases same : other = call
    · rw [same, own] at stands
      rw [stands] at unset
      cases unset
    · rw [still same] at stands
      exact settled.written other walk written buffered stands

/-- Blank nodes change nothing about what a call commits. -/
theorem RevisionRace.Keeps.grown {phase : RevisionPhase} (keeps : race.Keeps phase)
    {next : RevisionRace} (more : Grown [] race.tree next.tree) (file : next.file = race.file)
    (staged : next.staged = race.staged) : next.Keeps phase := by
  have text : hwParamSaveFile next.tree = hwParamSaveFile race.tree :=
    hwParamTreeSave_grown more []
  cases phase with
  | saving walk written buffered =>
    show written ++ buffered ++ walkText next.tree walk = hwParamSaveFile next.tree
    rw [text, walkText_grown more]
    exact keeps
  | saved =>
    show next.file = some (hwParamSaveFile next.tree)
    rw [text, file]
    exact keeps
  | added =>
    show next.staged = some (hwParamSaveFile next.tree)
    rw [text, staged]
    exact keeps
  | _ => trivial

/-- The tree is changed, or has grown by blank nodes. -/
theorem Settled.set (settled : Settled start race) (idle : race.phases call = .idle)
    (args : SetCall) : Settled start (revisionStep bus race (.set call args)) := by
  have step : revisionStep bus race (.set call args) =
      { race with
        tree := setValueStep race.tree args
        sets := race.sets ++ [(args, (hwParamSet race.tree args.key args.value args.alloc).2)]
        phases := Function.update race.phases call
          (if (hwParamSet race.tree args.key args.value args.alloc).2 = Param.hwrunOk then .changed
            else .idle) } := by
    simp only [revisionStep, idle]
    rfl
  rw [step]
  have before : (race.phases call).guarded = false := by
    rw [idle]
    rfl
  have made : setValueStep race.tree args = run setValueStep start.tree
      ((race.sets ++ [(args, (hwParamSet race.tree args.key args.value args.alloc).2)]).map
        Prod.fst) := by
    rw [List.map_append, run_append, ← settled.tree]
    rfl
  by_cases success : (hwParamSet race.tree args.key args.value args.alloc).2 = Param.hwrunOk
  · rw [if_pos success]
    refine settled.approach before rfl ?_ made rfl rfl rfl ?_
    · rintro ⟨⟩
    · intro _
      refine .inl ⟨call, ?_⟩
      show (Function.update race.phases call .changed call).early = true
      rw [Function.update_self]
      rfl
  · rw [if_neg success]
    refine settled.approach before rfl ?_ made rfl rfl rfl ?_
    · rintro ⟨⟩
    · rintro ⟨set, member, ok⟩
      have more : Grown [] race.tree (setValueStep race.tree args) := grown_hwParamSet success
      have earlier : set ∈ race.sets := by
        rcases List.mem_append.mp member with earlier | last
        · exact earlier
        · rw [List.mem_singleton.mp last] at ok
          exact absurd ok success
      have same : Function.update race.phases call .idle = race.phases := by
        rw [← idle, Function.update_eq_self]
      rw [same]
      obtain early | ⟨keeps, up⟩ := settled.fresh ⟨set, earlier, ok⟩
      · exact .inl early
      · refine .inr ⟨fun other => (keeps other).grown more rfl rfl, up.imp_left fun up => ?_⟩
        show race.committed = some (hwParamTreeSave [] (setValueStep race.tree args))
        rw [hwParamTreeSave_grown more]
        exact up

/-- A call finds the flag clear and no other past it, or set by one that is still to save. -/
theorem Settled.test (settled : Settled start race) (active : bus.active = true)
    (inTurn : InTurn race (.test call)) (changed : race.phases call = .changed) :
    Settled start (revisionStep bus race (.test call)) := by
  have before : (race.phases call).guarded = false := by
    rw [changed]
    rfl
  have step : revisionStep bus race (.test call) =
      race.become call (if race.committing then .idle else .tested) := by
    simp [revisionStep, changed, active]
  rw [step]
  by_cases flag : race.committing = true
  · rw [if_pos flag]
    refine settled.approach before rfl ?_ settled.tree rfl rfl rfl ?_
    · rintro ⟨⟩
    · intro _
      obtain ⟨other, guarded⟩ := settled.flag.mp flag
      have entered := (inTurn other (RevisionPhase.guarded_inside guarded)).2
      have different : other ≠ call := by
        rintro rfl
        rw [changed] at entered
        cases entered
      refine .inl ⟨other, ?_⟩
      show (Function.update race.phases call .idle other).early = true
      rw [Function.update_of_ne different, entered]
      rfl
  · rw [if_neg flag]
    refine settled.approach before rfl ?_ settled.tree rfl rfl rfl ?_
    · intro _ other
      by_contra inside
      rw [Bool.not_eq_false] at inside
      exact flag (inTurn other inside).1
    · intro _
      refine .inl ⟨call, ?_⟩
      show (Function.update race.phases call .tested call).early = true
      rw [Function.update_self]
      rfl

/-- A call that saves goes on: the file has what it has written, and nothing of the text is lost. -/
theorem Settled.save (settled : Settled start race) {walk further : Walk}
    {written buffered put kept : CString}
    (stands : race.phases call = .saving walk written buffered) {file : Option CString}
    (holds : file = some put)
    (text : put ++ kept ++ walkText race.tree further =
      written ++ buffered ++ walkText race.tree walk) :
    Settled start ({ race with file := file }.become call (.saving further put kept)) := by
  refine settled.move stands rfl rfl rfl rfl (settled.flag.mpr ⟨call, ?_⟩) ?_ ?_ ?_ ?_
  · rw [stands]
    rfl
  · rintro _ _ _ ⟨⟩
    exact holds
  · rintro ⟨⟩
  · intro _ before
    exact text.trans before
  · rintro ⟨⟩

/-- Every step in turn keeps this. -/
theorem Settled.step (settled : Settled start race) (ready : bus.Ready) {action : RevisionAction}
    (succeeds : GitSucceeds race action) (inTurn : InTurn race action) :
    Settled start (revisionStep bus race action) := by
  cases action with
  | set call args =>
    cases stands : race.phases call with
    | idle => exact settled.set stands args
    | _ =>
      simp only [revisionStep, stands]
      exact settled
  | test call =>
    cases stands : race.phases call with
    | changed => exact settled.test ready.active inTurn stands
    | _ =>
      simp only [revisionStep, stands]
      exact settled
  | enter call =>
    simp only [revisionStep]
    split
    next stands =>
      refine settled.move stands rfl rfl rfl rfl rfl ?_ ?_ ?_ ?_
      · rintro walk written buffered ⟨⟩
      · exact fun _ => .inl rfl
      · rintro ⟨⟩
      · rintro _ _ (up | ⟨⟨⟩⟩)
        exact up
    next => exact settled
  | fopen call opened =>
    simp only [revisionStep]
    split
    next stands =>
      have opened : opened = true := succeeds
      rw [ready.commits, opened]
      refine settled.move stands rfl rfl rfl rfl (settled.flag.mpr ⟨call, ?_⟩) ?_ ?_ ?_ ?_
      · rw [stands]
        rfl
      · rintro walk written buffered ⟨⟩
        rfl
      · exact fun _ => .inr ⟨walkText_start race.tree, rfl⟩
      · rintro ⟨⟩
      · rintro ⟨⟩
    next => exact settled
  | walk call =>
    simp only [revisionStep]
    split
    next walk written buffered stands =>
      refine settled.save stands (settled.written call _ _ _ stands) ?_
      rw [walkText_step race.tree walk]
      simp only [List.append_assoc]
    next => exact settled
  | flush call count =>
    simp only [revisionStep]
    split
    next walk written buffered stands =>
      refine settled.save stands ?_ ?_
      · rw [settled.written call _ _ _ stands, Option.getD_some, writeAt_end]
      · rw [List.append_assoc written, List.take_append_drop]
    next => exact settled
  | fclose call =>
    simp only [revisionStep]
    split
    next written buffered stands =>
      have file := settled.written call _ _ _ stands
      refine settled.move stands rfl rfl rfl rfl (settled.flag.mpr ⟨call, ?_⟩) ?_ ?_ ?_ ?_
      · rw [stands]
        rfl
      · rintro _ _ _ ⟨⟩
      · rintro ⟨⟩
      · intro _ text
        show some (writeAt (race.file.getD []) written.length buffered) =
          some (hwParamSaveFile race.tree)
        have text : written ++ buffered ++ walkText race.tree [] = hwParamSaveFile race.tree := text
        rw [file, Option.getD_some, writeAt_end, ← text]
        simp [walkText]
      · rintro ⟨⟩
    next => exact settled
  | add call rc =>
    simp only [revisionStep]
    split
    next stands =>
      have ok : rc = Param.hwrunOk := succeeds
      rw [if_pos ok]
      refine settled.move stands rfl rfl rfl rfl (settled.flag.mpr ⟨call, ?_⟩) ?_ ?_ ?_ ?_
      · rw [stands]
        rfl
      · rintro _ _ _ ⟨⟩
      · rintro ⟨⟩
      · exact fun _ file => file
      · rintro ⟨⟩
    next => exact settled
  | commit call rc =>
    simp only [revisionStep]
    split
    next stands =>
      have ok : rc = Param.hwrunOk ∨ race.staged = race.committed := succeeds
      refine settled.move stands rfl rfl rfl rfl (settled.flag.mpr ⟨call, ?_⟩) ?_ ?_ ?_ ?_
      · rw [stands]
        rfl
      · rintro _ _ _ ⟨⟩
      · rintro ⟨⟩
      · exact fun _ _ => trivial
      · intro _ staged _
        have staged : race.staged = some (hwParamSaveFile race.tree) := staged
        show (if rc = Param.hwrunOk then race.staged else race.committed) =
          some (hwParamSaveFile race.tree)
        split
        next => exact staged
        next failed => rw [← ok.resolve_left failed, staged]
    next => exact settled
  | clear call =>
    simp only [revisionStep]
    split
    next stands =>
      refine settled.move stands rfl rfl rfl rfl rfl ?_ ?_ ?_ ?_
      · rintro _ _ _ ⟨⟩
      · rintro ⟨⟩
      · exact fun _ _ => trivial
      · rintro _ _ (up | ⟨⟨⟩⟩)
        exact up
    next => exact settled

end

/-! ## Runs -/

/-- In every interleaving in which git succeeds and each call tests the flag in turn, whenever no
call is under way the tree has all sets made and its text is what was committed last. -/
theorem revisions_committed {bus : RevisionBus} (ready : bus.Ready) {start : RevisionRace}
    (fresh : start.Fresh) {actions : List RevisionAction}
    (succeeds : AllSteps (revisionStep bus) GitSucceeds start actions)
    (inTurn : AllSteps (revisionStep bus) InTurn start actions) :
    AllStates (revisionStep bus) (Committed start) start actions := by
  have kept (race : RevisionRace) (action : RevisionAction) (settled : Settled start race)
      (both : GitSucceeds race action ∧ InTurn race action) :
      Settled start (revisionStep bus race action) := settled.step ready both.1 both.2
  have settled := allStates_of_steps kept fresh.settled (succeeds.and inTurn)
  exact settled.mono fun _ settled => settled.committed

/-- A bus with a git plugin that commits. -/
def gitBus : RevisionBus where
  active := true
  route := some ⟨true, some true⟩
  gitDir := lit "/var/lib/hwrun/git"

/-- That is what is needed. -/
theorem gitBus_ready : gitBus.Ready := ⟨rfl, by decide⟩

/-- No parameters, and no file. -/
def noRevision : RevisionRace where
  tree := .null
  committing := false
  file := none
  staged := none
  committed := none
  phases _ := .idle
  sets := []

/-- Nothing is under way there. -/
theorem noRevision_fresh : noRevision.Fresh := ⟨fun _ => rfl, rfl, rfl⟩

/-- A set of one parameter. -/
def plainSet (key value : String) : SetCall := ⟨some (lit key), some (lit value), fun _ => true⟩

/-- The steps of a call from the end of its walk on. -/
def commitSteps (call : Nat) : List RevisionAction :=
  [.fclose call, .add call Param.hwrunOk, .commit call Param.hwrunOk, .clear call]

/-- A second call finds the flag set before the first has opened the file, and a third comes when
the first is done. -/
theorem revisions_committed_three :
    AllStates (revisionStep gitBus) (Committed noRevision) noRevision
    ([.set 0 (plainSet "a" "1"), .test 0, .enter 0, .set 1 (plainSet "b" "2"), .test 1,
        .fopen 0 true, .walk 0, .walk 0, .walk 0, .set 2 (plainSet "a" "3"), .walk 0, .walk 0] ++
      commitSteps 0 ++
      [.test 2, .enter 2, .fopen 2 true, .walk 2, .walk 2, .walk 2, .walk 2, .walk 2] ++
      commitSteps 2) := by
  refine revisions_committed gitBus_ready noRevision_fresh (by decide +kernel) ?_
  refine ⟨trivial, ?_, trivial, trivial, ?_, trivial, trivial, trivial, trivial, trivial, trivial,
    trivial, trivial, trivial, trivial, trivial, ?_, trivial, trivial, trivial, trivial, trivial,
    trivial, trivial, trivial, trivial, trivial, trivial, trivial⟩
  all_goals
    intro other inside
    rcases other with _ | _ | _ | other
    · first | exact ⟨rfl, rfl⟩ | cases inside
    · cases inside
    · cases inside
    · cases inside

/-- A second call finds the flag set when the first has walked the tree. -/
def lateTest : List RevisionAction :=
  [.set 0 (plainSet "a" "1"), .test 0, .enter 0, .fopen 0 true, .walk 0, .walk 0, .walk 0,
    .set 1 (plainSet "b" "2"), .test 1] ++ commitSteps 0

/-- Both calls return, and the commit lacks what the second has set. -/
theorem late_test_uncommitted :
    AllSteps (revisionStep gitBus) GitSucceeds noRevision lateTest ∧
      hwParamGet (run (revisionStep gitBus) noRevision lateTest).tree (lit "b") = some (lit "2") ∧
      (run (revisionStep gitBus) noRevision lateTest).committed =
        some (lit "a: 1" ++ [newline]) ∧
      ¬ AllStates (revisionStep gitBus) (Committed noRevision) noRevision lateTest := by
  have committed : (run (revisionStep gitBus) noRevision lateTest).committed =
      some (lit "a: 1" ++ [newline]) := by decide +kernel
  refine ⟨by decide +kernel, by decide +kernel, committed, ?_⟩
  intro holds
  have quiet : (run (revisionStep gitBus) noRevision lateTest).Quiet := by
    intro call
    rcases call with _ | _ | call
    · rfl
    · rfl
    · rfl
  have upToDate := (holds.last quiet).2 (by decide +kernel)
  rw [committed] at upToDate
  revert upToDate
  decide +kernel

end HwrunOs.Bus
