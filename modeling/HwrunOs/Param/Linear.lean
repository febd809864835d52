import HwrunOs.Bus.Lock
import HwrunOs.Param.FiniteMap

/-!
# Parameters under their lock

`hw_param_get_int` and `hw_param_get_bool` look a node up and copy its value in a shared section of
the lock of the context; `hw_param_set_value` copies the old value and changes the tree in an
exclusive one. The steps of threads come in any order, and still every thread gets the answers of a
map that is asked and changed by one call at a time, in the order in which the calls got the lock.
-/

namespace HwrunOs.Param

open HwrunOs.Bytes HwrunOs.Trees HwrunOs.Runs HwrunOs.Sections HwrunOs.Bus

/-! ## Answers -/

/-- What `hw_param_get_int` makes of a value. -/
def intOf (default : Int) : Option CString → Int
  | none => default
  | some value => atoi value

/-- What `hw_param_get_bool` makes of a value. -/
def boolOf (default : Bool) : Option CString → Bool
  | none => default
  | some value =>
    if value = lit "true" ∨ value = lit "1" ∨ value = lit "yes" then true
    else if value = lit "false" ∨ value = lit "0" ∨ value = lit "no" then false
    else default

/-- A call that takes the lock. -/
inductive ParamCall where
  /-- `hw_param_get_int`. -/
  | getInt (key : CString) (default : Int)
  /-- `hw_param_get_bool`. -/
  | getBool (key : CString) (default : Bool)
  /-- `hw_param_set_value`. -/
  | set (call : SetCall)

/-- What a call gives: a number, a boolean, or the old value for the watchers and a result. -/
inductive ParamAnswer where
  /-- The result of `hw_param_get_int`. -/
  | int (value : Int)
  /-- The result of `hw_param_get_bool`. -/
  | bool (value : Bool)
  /-- The old value that `hw_param_set_value` passes on, and its result. -/
  | set (old : Option CString) (rc : Int)
  deriving DecidableEq

/-! ## Guarded sections -/

/-- The local variables of a call, and the answers of the earlier ones. -/
structure ParamKept where
  /-- A node was found. -/
  found : Bool
  /-- `buf`, or `old_copy`. -/
  copy : CString
  /-- `has_old`. -/
  hasOld : Bool
  /-- The answers, oldest first. -/
  answers : List ParamAnswer

/-- A thread before its first call. -/
def ParamKept.start : ParamKept := ⟨false, [], false, []⟩

/-- The answer of a call. -/
def ParamKept.answer (kept : ParamKept) (answer : ParamAnswer) : ParamKept :=
  { kept with answers := kept.answers ++ [answer] }

/-- `snprintf` of the value of a node that is not empty. -/
def ParamKept.copyValue (kept : ParamKept) : Option CString → ParamKept
  | none => kept
  | some value => { kept with copy := snprintf 256 value, hasOld := true }

/-- A node is looked up, and then its value is copied. -/
def copyParts (key : Option CString) : List (Part ParamTree ParamKept) :=
  [fun tree kept =>
      (tree, { kept with
        found := (key.bind (hwParamFind tree)).isSome
        copy := []
        hasOld := false }),
    fun tree kept =>
      (tree, if kept.found then kept.copyValue (key.bind (hwParamGet tree)) else kept)]

/-- What a copy stands for: an empty one is no value. -/
def ParamKept.value (kept : ParamKept) : Option CString :=
  if kept.copy = [] then none else some kept.copy

/-- The key of a call. -/
def ParamCall.key : ParamCall → Option CString
  | .getInt key _ | .getBool key _ => some key
  | .set call => call.key

/-- What follows the copy: the tree is set, and the answer is made. -/
def ParamCall.last : ParamCall → Part ParamTree ParamKept
  | .getInt _ default => fun tree kept => (tree, kept.answer (.int (intOf default kept.value)))
  | .getBool _ default => fun tree kept => (tree, kept.answer (.bool (boolOf default kept.value)))
  | .set call => fun tree kept =>
    ((hwParamSet tree call.key call.value call.alloc).1,
      kept.answer (.set (if kept.hasOld then some kept.copy else none)
        (hwParamSet tree call.key call.value call.alloc).2))

/-- The statements of a call, those of its guard and the one that makes its answer. -/
def ParamCall.parts (call : ParamCall) : List (Part ParamTree ParamKept) :=
  copyParts call.key ++ [call.last]

/-- `HW_RDLOCK_GUARD` or `HW_WRLOCK_GUARD`. -/
def ParamCall.mode : ParamCall → Mode
  | .set _ => .exclusive
  | _ => .shared

/-- Copying only reads. -/
theorem copyParts_reads (key : Option CString) : ∀ part ∈ copyParts key, Reads part := by
  intro part listed tree kept
  simp only [copyParts, List.mem_cons, List.not_mem_nil, or_false] at listed
  rcases listed with rfl | rfl <;> rfl

/-- The section of a call. -/
def paramSection (call : ParamCall) : Section ParamTree ParamKept where
  mode := call.mode
  parts := call.parts
  reads := by
    intro shared part listed
    rcases List.mem_append.mp listed with copies | answers
    · exact copyParts_reads call.key part copies
    · rw [List.mem_singleton.mp answers]
      cases call with
      | getInt key default | getBool key default => exact fun _ _ => rfl
      | set call => cases shared

/-! ## Whole calls -/

/-- The answer of a call that is alone. -/
def ParamCall.answer (tree : ParamTree) : ParamCall → ParamAnswer
  | .getInt key default => .int (intOf default ((hwParamGet tree key).map (snprintf 256)))
  | .getBool key default => .bool (boolOf default ((hwParamGet tree key).map (snprintf 256)))
  | .set call =>
    .set ((call.key.bind (hwParamGet tree)).map (snprintf 256))
      (hwParamSet tree call.key call.value call.alloc).2

/-- The tree after a call that is alone. -/
def ParamCall.treeAfter (tree : ParamTree) : ParamCall → ParamTree
  | .set call => setValueStep tree call
  | _ => tree

/-- A value that is got is not empty, and neither is its copy. -/
theorem hwParamGet_copied {tree : ParamTree} {key value : CString}
    (found : hwParamGet tree key = some value) : snprintf 256 value ≠ [] := by
  rw [hwParamGet_eq] at found
  split at found
  · cases found
  · rename_i filled
    rw [← Option.some.inj found]
    cases stored : lookup [] (keyParts key) tree with
    | nil => exact absurd stored filled
    | cons byte rest => simp [snprintf]

/-- What is got is in a node that is found. -/
theorem hwParamFind_of_get {tree : ParamTree} {key : CString}
    (missing : hwParamFind tree key = none) : hwParamGet tree key = none := by
  unfold hwParamGet
  rw [missing]

/-- What the copying parts leave in the local variables. -/
theorem finish_copyParts (key : Option CString) (tree : ParamTree) (kept : ParamKept) :
    (finish (copyParts key) tree kept).1 = tree ∧
      (finish (copyParts key) tree kept).2.answers = kept.answers ∧
      (finish (copyParts key) tree kept).2.value =
        (key.bind (hwParamGet tree)).map (snprintf 256) ∧
      (if (finish (copyParts key) tree kept).2.hasOld then
          some (finish (copyParts key) tree kept).2.copy
        else none) = (key.bind (hwParamGet tree)).map (snprintf 256) := by
  cases key with
  | none => exact ⟨rfl, rfl, rfl, rfl⟩
  | some key =>
    simp only [copyParts, finish_cons, finish_nil, Option.bind_some]
    cases found : hwParamFind tree key with
    | none =>
      simp [hwParamFind_of_get found, ParamKept.value]
    | some node =>
      cases got : hwParamGet tree key with
      | none => simp [ParamKept.copyValue, ParamKept.value]
      | some value => simp [ParamKept.copyValue, ParamKept.value, hwParamGet_copied got]

/-- A whole call changes the tree and answers as if it were alone. -/
theorem finish_paramParts (call : ParamCall) (tree : ParamTree) (kept : ParamKept) :
    (finish call.parts tree kept).1 = call.treeAfter tree ∧
      (finish call.parts tree kept).2.answers = kept.answers ++ [call.answer tree] := by
  obtain ⟨same, answers, value, old⟩ := finish_copyParts call.key tree kept
  have split : finish call.parts tree kept =
      call.last (finish (copyParts call.key) tree kept).1
        (finish (copyParts call.key) tree kept).2 := by
    unfold finish ParamCall.parts
    rw [List.foldl_append]
    rfl
  rw [split, same]
  cases call with
  | getInt key default | getBool key default =>
    refine ⟨rfl, ?_⟩
    dsimp only [ParamCall.last, ParamKept.answer]
    rw [answers, value]
    rfl
  | set call =>
    refine ⟨rfl, ?_⟩
    dsimp only [ParamCall.last, ParamKept.answer]
    rw [answers, old]
    rfl

variable {τ : Type*} [DecidableEq τ]

/-- A call of a thread with its answer. -/
abbrev Answered (τ : Type*) := τ × ParamCall × ParamAnswer

/-- The calls with their answers, each on the tree that those before it leave. -/
def historyOf (tree : ParamTree) : List (τ × ParamCall) → List (Answered τ)
  | [] => []
  | (thread, call) :: rest =>
    (thread, call, call.answer tree) :: historyOf (call.treeAfter tree) rest

/-- The answers a thread was given. -/
def answersOf (thread : τ) (history : List (Answered τ)) : List ParamAnswer :=
  history.filterMap fun entry => if entry.1 = thread then some entry.2.2 else none

/-- The tree and the answers that whole sections give. -/
theorem after_paramSections (first : Whole τ ParamTree ParamKept) (calls : List (τ × ParamCall)) :
    (first.after (entriesOf paramSection calls)).data =
        run (fun tree entry => ParamCall.treeAfter tree entry.2) first.data calls ∧
      ∀ thread, ((first.after (entriesOf paramSection calls)).kept thread).answers =
        (first.kept thread).answers ++ answersOf thread (historyOf first.data calls) := by
  induction calls generalizing first with
  | nil =>
    refine ⟨rfl, fun thread => ?_⟩
    show (first.kept thread).answers = (first.kept thread).answers ++ []
    rw [List.append_nil]
  | cons entry rest ih =>
    obtain ⟨caller, call⟩ := entry
    obtain ⟨tree, answers⟩ := finish_paramParts call first.data (first.kept caller)
    obtain ⟨later, given⟩ := ih (first.perform (caller, paramSection call))
    have data : (first.perform (caller, paramSection call)).data = call.treeAfter first.data := tree
    rw [data] at later given
    refine ⟨later, fun thread => ?_⟩
    apply (given thread).trans
    rw [answersOf, answersOf, historyOf, List.filterMap_cons]
    by_cases own : caller = thread
    · rw [if_pos own, ← own]
      show ((Function.update first.kept caller _) caller).answers ++ _ = _
      rw [Function.update_self]
      show (finish call.parts first.data (first.kept caller)).2.answers ++ _ = _
      rw [answers, List.append_assoc]
      rfl
    · rw [if_neg own]
      show ((Function.update first.kept caller _) thread).answers ++ _ = _
      rw [Function.update_of_ne (Ne.symm own)]

/-! ## The map -/

/-- A result that `hw_param_set_value` may have: a null pointer is refused, and as long as there is
memory nothing else is. -/
def SetResult (call : SetCall) (rc : Int) : Prop :=
  if call.key = none ∨ call.value = none then rc = hwrunEinval
  else (rc = hwrunOk ∨ rc = hwrunEnomem) ∧ (call.alloc = (fun _ => true) → rc = hwrunOk)

/-- The answers that a map may give to a call. -/
def ParamMap.Answers (map : ParamMap) : ParamCall → ParamAnswer → Prop
  | .getInt key default, answer => answer = .int (intOf default (map key))
  | .getBool key default, answer => answer = .bool (boolOf default (map key))
  | .set call, answer => ∃ rc, answer = .set (call.key.bind map) rc ∧ SetResult call rc

/-- The map after a call with its answer. -/
def ParamMap.after (map : ParamMap) : ParamCall → ParamAnswer → ParamMap
  | .set call, .set _ rc => map.set (call, rc)
  | _, _ => map

/-- The map after some calls with their answers. -/
def ParamMap.afterAll (map : ParamMap) (history : List (ParamCall × ParamAnswer)) : ParamMap :=
  history.foldl (fun map entry => map.after entry.1 entry.2) map

/-- The calls get answers of a map that each of them finds as the one before leaves it. -/
def Legal : ParamMap → List (ParamCall × ParamAnswer) → Prop
  | _, [] => True
  | map, (call, answer) :: rest => map.Answers call answer ∧ Legal (map.after call answer) rest

/-- Keys and values of the call fit the fields of a node. -/
def ParamCall.Short : ParamCall → Prop
  | .getInt key _ | .getBool key _ => ShortKey key
  | .set call => ShortCall call

/-- A tree gives back what a map holds. -/
structure Shows (tree : ParamTree) (map : ParamMap) : Prop where
  /-- The tree is well-formed. -/
  formed : Formed tree
  /-- Short keys have the same values. -/
  same : ∀ key, ShortKey key → hwParamGet tree key = map key

/-- The tree and its map, which answers a short key with the whole value. -/
theorem Shows.copied {tree : ParamTree} {map : ParamMap} (shows : Shows tree map) {key : CString}
    (short : ShortKey key) : (hwParamGet tree key).map (snprintf 256) = map key := by
  rw [← shows.same key short]
  cases got : hwParamGet tree key with
  | none => rfl
  | some value =>
    have fits : value.length < 256 := by
      unfold hwParamGet at got
      cases found : hwParamFind tree key with
      | none => simp [found] at got
      | some node =>
        simp only [found] at got
        split at got
        · cases got
        · rw [← Option.some.inj got]
          exact (shows.formed.find found).2
    rw [Option.map_some, snprintf_eq fits]

/-- `hw_param_set` has one of its results. -/
theorem hwParamSet_result (tree : ParamTree) (call : SetCall) :
    SetResult call (hwParamSet tree call.key call.value call.alloc).2 := by
  obtain ⟨key, value, alloc⟩ := call
  cases key with
  | none => rfl
  | some key =>
    cases value with
    | none => rfl
    | some value =>
      unfold SetResult
      rw [if_neg (by simp)]
      show ((if (insert [] (snprintf 256 value) (keyParts key) alloc tree).2 = true then hwrunOk
        else hwrunEnomem) = hwrunOk ∨ (if _ then hwrunOk else hwrunEnomem) = hwrunEnomem) ∧ _
      constructor
      · by_cases done : (insert [] (snprintf 256 value) (keyParts key) alloc tree).2 = true
        · exact .inl (if_pos done)
        · exact .inr (if_neg done)
      · intro memory
        dsimp only at memory
        rw [memory]
        exact if_pos (insert_done _ _ (keyParts_ne_nil key) tree)

/-- A whole short call answers as the map does. -/
theorem Shows.answer {tree : ParamTree} {map : ParamMap} (shows : Shows tree map)
    {call : ParamCall} (short : call.Short) : map.Answers call (call.answer tree) := by
  cases call with
  | getInt key default => exact congrArg (ParamAnswer.int ∘ intOf default) (shows.copied short)
  | getBool key default => exact congrArg (ParamAnswer.bool ∘ boolOf default) (shows.copied short)
  | set call =>
    refine ⟨_, ?_, hwParamSet_result tree call⟩
    show ParamAnswer.set _ _ = _
    congr 1
    cases named : call.key with
    | none => rfl
    | some key => exact shows.copied (short.key key named)

/-- A whole short call leaves a tree that shows the map after it. -/
theorem Shows.after {tree : ParamTree} {map : ParamMap} (shows : Shows tree map)
    {call : ParamCall} (short : call.Short) :
    Shows (call.treeAfter tree) (map.after call (call.answer tree)) := by
  cases call with
  | getInt key default | getBool key default => exact shows
  | set call =>
    refine ⟨formed_step shows.formed call, fun key shortKey => ?_⟩
    have stored := @hwParamGet_setValueStep tree call short key shortKey
    apply stored.trans
    show _ = run ParamMap.set map [(call, _)] key
    rw [run_set_eq_lastSet, lastSet, List.filterMap_cons, List.filterMap_nil]
    cases setFor key (call, (hwParamSet tree call.key call.value call.alloc).2) with
    | none => exact shows.same key shortKey
    | some value => rfl

omit [DecidableEq τ] in
/-- Whole short calls get legal answers, and the tree goes on to show the map. -/
theorem Shows.history {tree : ParamTree} {map : ParamMap} (shows : Shows tree map)
    {calls : List (τ × ParamCall)} (short : ∀ entry ∈ calls, entry.2.Short) :
    Legal map ((historyOf tree calls).map Prod.snd) ∧
      Shows (run (fun tree entry => ParamCall.treeAfter tree entry.2) tree calls)
        (map.afterAll ((historyOf tree calls).map Prod.snd)) := by
  induction calls generalizing tree map with
  | nil => exact ⟨trivial, shows⟩
  | cons entry rest ih =>
    have first := short entry (.head _)
    obtain ⟨legal, later⟩ := ih (shows.after first) fun other listed => short other (.tail _ listed)
    exact ⟨⟨shows.answer first, legal⟩, later⟩

omit [DecidableEq τ] in
/-- The calls of the history. -/
theorem historyOf_calls (tree : ParamTree) (calls : List (τ × ParamCall)) :
    (historyOf tree calls).map (fun entry => (entry.1, entry.2.1)) = calls := by
  induction calls generalizing tree with
  | nil => rfl
  | cons entry rest ih =>
    obtain ⟨thread, call⟩ := entry
    exact congrArg ((thread, call) :: ·) (ih _)

/-! ## Linearisation -/

/-- What has happened is a history of a map: the calls that got the lock, in that order, with
answers of the map, which every thread outside has been given. -/
structure Linearised (first : Whole τ ParamTree ParamKept)
    (state : LockWorld τ ParamTree ParamKept) (history : List (Answered τ)) : Prop where
  /-- These calls got the lock, in this order. -/
  entered : state.world.entered =
    entriesOf paramSection (history.map fun entry => (entry.1, entry.2.1))
  /-- The answers are those of a map. -/
  legal : Legal (hwParamGet first.data) (history.map Prod.snd)
  /-- A thread outside has its answers. -/
  answered : ∀ thread, state.world.places thread = .outside →
    (state.world.kept thread).answers = (first.kept thread).answers ++ answersOf thread history
  /-- While nobody writes the tree shows the map. -/
  tree : state.world.Readable →
    Shows state.world.data (ParamMap.afterAll (hwParamGet first.data) (history.map Prod.snd))

/-- Every run of a disciplined process whose calls are short is linearised. -/
theorem param_calls_linear (first : Whole τ ParamTree ParamKept) (formed : Formed first.data)
    (commands : List (LockCommand τ ParamCall))
    (short : ∀ thread call attempt, .lock thread call attempt ∈ commands → call.Short)
    (discipline : AllSteps lockStep LockDiscipline (LockWorld.start .rw first)
      (commands.map (LockCommand.action paramSection))) :
    AllStates lockStep (fun state => ∃ history, Linearised first state history)
      (LockWorld.start .rw first) (commands.map (LockCommand.action paramSection)) := by
  have sound := guards_sound .rw first _ discipline
  have made := entered_calls paramSection .rw first commands
  apply (sound.and made).mono
  rintro state ⟨sound, calls, entered, made, -⟩
  obtain ⟨data, answers⟩ := after_paramSections first calls
  have shortCalls : ∀ entry ∈ calls, entry.2.Short := by
    intro entry listed
    obtain ⟨attempt, given⟩ := made entry listed
    exact short entry.1 entry.2 attempt given
  have shows : Shows first.data (hwParamGet first.data) := ⟨formed, fun _ _ => rfl⟩
  obtain ⟨legal, later⟩ := shows.history shortCalls
  refine ⟨historyOf first.data calls, ?_, legal, ?_, ?_⟩
  · rw [historyOf_calls]
    exact entered
  · intro thread outside
    rw [sound.explained.outside thread outside, entered]
    exact answers thread
  · intro readable
    rw [sound.explained.settled readable, entered, data]
    exact later

/-- A key that is set while another thread reads it. -/
def racingCommands : List (LockCommand Bool ParamCall) :=
  [.enableParallel,
    .lock true (.set ⟨some (lit "np.mtu"), some (lit "1500"), fun _ => true⟩) ⟨0, 0⟩, .go true,
    .lock false (.getInt (lit "np.mtu") 7) ⟨0, 0⟩, .go true, .go true, .unlock true,
    .lock false (.getInt (lit "np.mtu") 7) ⟨0, 0⟩, .go false, .go false, .go false, .unlock false]

/-- The thread that reads is linearised with the one that sets. -/
theorem param_calls_linear_racing :
    AllStates lockStep (fun state => ∃ history, Linearised ⟨.null, fun _ => .start⟩ state history)
      (LockWorld.start .rw ⟨.null, fun _ => .start⟩)
      (racingCommands.map (LockCommand.action paramSection)) := by
  have fine (attempt : Attempt) (none : attempt.rc = 0) : attempt.rc ≠ 0 → attempt.errno ≠ 0 :=
    fun fails => absurd none fails
  have named : ShortKey (lit "np.mtu") := by decide +kernel
  apply param_calls_linear ⟨.null, fun _ => .start⟩ trivial racingCommands
  · intro thread call attempt listed
    simp only [racingCommands, List.mem_cons, LockCommand.lock.injEq, reduceCtorEq,
      List.not_mem_nil, false_or, or_false] at listed
    rcases listed with ⟨-, rfl, -⟩ | ⟨-, rfl, -⟩ | ⟨-, rfl, -⟩
    · constructor
      · rintro key ⟨⟩
        exact named
      · rintro value ⟨⟩
        decide +kernel
    · exact named
    · exact named
  · exact ⟨fun _ => rfl, ⟨nofun, fine _ rfl⟩, trivial, ⟨nofun, fine _ rfl⟩, trivial, trivial,
      trivial, ⟨nofun, fine _ rfl⟩, trivial, trivial, trivial, trivial, trivial⟩

end HwrunOs.Param
