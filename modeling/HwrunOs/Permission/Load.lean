import HwrunOs.Permission.Restart

/-!
# Loading any state file

`state_read_locked` on a file of any bytes: a line is cut at a zero byte, a bad line is skipped
and an allocation may fail at every role and every binding. Whatever the file holds, the policy
that is read is sound; only the subjects are not checked as `grant` checks them.
-/

namespace HwrunOs.Permission

open HwrunOs.Bytes HwrunOs.Runs HwrunOs.Lookup

/-! ## Reading -/

/-- The trimmed lines of a file of any bytes that are neither empty nor comments. -/
def loadLines (file : CString) : List CString :=
  ((fgetsLines 4096 file).map fun line => trimWs (bufferText line)).filter fun line =>
    !line.isEmpty && line.head? != some 35

/-- The branch of `state_apply_line` for a role, with the outcome of its allocation. -/
def loadRole (alloc : Bool) (policy : Policy) (text : CString) : Policy × Int :=
  match takeTok 64 text with
  | none => (policy, einval)
  | some (name, rest) =>
    let description := snprintf 256 (trimWs rest)
    if !tokenOk name 64 then (policy, einval)
    else if !freeTextOk description 256 then (policy, einval)
    else if (findRole policy name).isSome then (policy, 0)
    else if !alloc then (policy, enomem)
    else (appendRole policy name description, 0)

/-- The branch of `state_apply_line` for a binding, with the outcome of its allocation. -/
def loadGrant (alloc : Bool) (policy : Policy) (text : CString) : Policy × Int :=
  match takeTok 128 text with
  | none => (policy, einval)
  | some (subject, rest) =>
    match takeTok 64 rest with
    | none => (policy, einval)
    | some (role, _) =>
      if (findRole policy role).isNone then (policy, enoent)
      else if (findBinding policy subject role).isSome then (policy, 0)
      else if !alloc then (policy, enomem)
      else (appendBinding policy subject role, 0)

/-- `state_apply_line` with the outcome of its allocation. -/
def loadLine (alloc : Bool) (policy : Policy) (line : CString) : Policy × Int :=
  match takeTok 16 line with
  | none => (policy, einval)
  | some (kind, rest) =>
    if kind = lit "role" then loadRole alloc policy rest
    else if kind = lit "perm" then applyPerm policy rest
    else if kind = lit "grant" then loadGrant alloc policy rest
    else (policy, einval)

/-- The body of the first pass: an error other than a bad line is kept. -/
def loadRoleLine (state : Policy × Int) (entry : CString × Bool) : Policy × Int :=
  let (policy, error) := loadLine entry.2 state.1 entry.1
  (policy, if error < 0 ∧ error ≠ einval then error else state.2)

/-- The body of the second pass. -/
def loadOtherLine (policy : Policy) (entry : CString × Bool) : Policy :=
  (loadLine entry.2 policy entry.1).1

/-- `state_read_locked` on any file; `alloc` is the outcome of the allocation of each line. -/
def stateLoad (file : CString) (alloc : Nat → Bool) : Policy × Int :=
  let entries := (loadLines file).mapIdx fun index line => (line, alloc index)
  let (policy, rc) := (entries.filter fun entry => isRoleLine entry.1).foldl loadRoleLine
    (Policy.empty, 0)
  ((entries.filter fun entry => isOtherLine entry.1).foldl loadOtherLine policy, rc)

/-! ## Operations -/

/-- An operation on the policy. -/
inductive Operation where
  /-- One of the changes. -/
  | change (action : Action)
  /-- `load` and the start: the file, or nothing when it cannot be opened or its lines cannot
  be kept. -/
  | load (file : Option CString) (alloc : Nat → Bool)
  /-- `hw_permission_state_close`. -/
  | close

/-- The policy after an operation. -/
def operate (policy : Policy) : Operation → Policy
  | .change action => policyStep policy action
  | .load none _ => policy
  | .load (some file) alloc => (stateLoad file alloc).1
  | .close => Policy.empty

/-- The policy after operations from the start of the process. -/
def policyAfter (operations : List Operation) : Policy := run operate Policy.empty operations

/-! ## The loader without zero bytes and failures -/

/-- With memory every line is applied as `stateApplyLine` says. -/
theorem loadLine_true (policy : Policy) (line : CString) :
    loadLine true policy line = stateApplyLine policy line := by
  have role (text : CString) : loadRole true policy text = applyRole policy text := by
    unfold loadRole applyRole
    cases takeTok 64 text with
    | none => rfl
    | some taken => rfl
  have grant (text : CString) : loadGrant true policy text = applyGrant policy text := by
    unfold loadGrant applyGrant
    cases takeTok 128 text with
    | none => rfl
    | some taken =>
      dsimp only
      cases takeTok 64 taken.2 with
      | none => rfl
      | some second => rfl
  unfold loadLine stateApplyLine
  cases takeTok 16 line with
  | none => rfl
  | some taken => simp only [role, grant]

/-- The lines of a file hold bytes of the file only. -/
theorem mem_fgetsFrom {cap : Nat} {byte : UInt8} (line file : CString) :
    ∀ text ∈ fgetsFrom cap line file, byte ∈ text → byte ∈ line ∨ byte ∈ file := by
  induction file generalizing line with
  | nil =>
    intro text found inside
    simp only [fgetsFrom] at found
    split at found
    · cases found
    · rw [List.mem_singleton.mp found] at inside
      exact .inl inside
  | cons first rest ih =>
    intro text found inside
    simp only [fgetsFrom] at found
    split at found
    · rcases List.mem_cons.mp found with rfl | later
      · rcases List.mem_append.mp inside with old | new
        · exact .inl old
        · exact .inr (List.mem_singleton.mp new ▸ List.mem_cons_self)
      · rcases ih [] text later inside with none | below
        · cases none
        · exact .inr (List.mem_cons_of_mem _ below)
    · rcases ih _ text found inside with old | below
      · rcases List.mem_append.mp old with old | new
        · exact .inl old
        · exact .inr (List.mem_singleton.mp new ▸ List.mem_cons_self)
      · exact .inr (List.mem_cons_of_mem _ below)

/-- A file without zero bytes is read as the text it is. -/
theorem loadLines_eq {file : CString} (plain : (0 : UInt8) ∉ file) :
    loadLines file = readLines file := by
  have whole : ∀ line ∈ fgetsLines 4096 file, trimWs (bufferText line) = trimWs line := by
    intro line found
    rw [bufferText_eq]
    intro zero
    rcases mem_fgetsFrom [] file line found zero with none | inside
    · cases none
    · exact plain inside
  rw [loadLines, readLines, List.map_congr_left whole]

/-- Without failed allocations the loader applies the lines as `stateRead` does. -/
theorem stateLoad_true (file : CString) :
    stateLoad file (fun _ => true) =
      let (policy, rc) := ((loadLines file).filter isRoleLine).foldl readRoleLine (Policy.empty, 0)
      (((loadLines file).filter isOtherLine).foldl readOtherLine policy, rc) := by
  have entries : (loadLines file).mapIdx (fun _ line => (line, true)) =
      (loadLines file).map fun line => (line, true) := by
    rw [List.mapIdx_eq_zipIdx_map]
    conv_rhs => rw [← List.zipIdx_map_fst 0 (loadLines file), List.map_map]
    rfl
  have roles (lines : List CString) (state : Policy × Int) :
      (lines.map fun line => (line, true)).foldl loadRoleLine state =
        lines.foldl readRoleLine state := by
    rw [List.foldl_map]
    simp only [loadRoleLine, loadLine_true]
    rfl
  have others (lines : List CString) (policy : Policy) :
      (lines.map fun line => (line, true)).foldl loadOtherLine policy =
        lines.foldl readOtherLine policy := by
    rw [List.foldl_map]
    simp only [loadOtherLine, loadLine_true]
    rfl
  simp only [stateLoad, entries, List.filter_map, roles, others]
  rfl

/-- Without zero bytes and failed allocations the loader is `stateRead`. -/
theorem stateLoad_eq {file : CString} (plain : (0 : UInt8) ∉ file) :
    stateLoad file (fun _ => true) = stateRead file := by
  rw [stateLoad_true, loadLines_eq plain]
  rfl

/-! ## What a line does -/

/-- A token that was taken is not empty, fits its buffer and holds no blank. -/
theorem takeTok_some {cap : Nat} {text token rest : CString}
    (taken : takeTok cap text = some (token, rest)) :
    token ≠ [] ∧ token.length < cap ∧ ∀ byte ∈ token, byte ∈ text ∧ isBlank byte = false := by
  simp only [takeTok] at taken
  split at taken
  · cases taken
  rename_i usable
  obtain ⟨rfl, -⟩ := Prod.mk.inj (Option.some.inj taken)
  simp only [Bool.or_eq_true, List.isEmpty_iff, decide_eq_true_eq, not_or, not_le] at usable
  refine ⟨usable.1, usable.2, ?_⟩
  intro byte found
  have solid := List.mem_takeWhile_imp found
  have inside := (List.dropWhile_suffix isBlank).subset ((List.takeWhile_prefix _).subset found)
  exact ⟨inside, by simpa using solid⟩

/-- What is left after a token is the end of the line. -/
theorem takeTok_rest {cap : Nat} {text token rest : CString}
    (taken : takeTok cap text = some (token, rest)) : rest <:+ text := by
  simp only [takeTok] at taken
  split at taken
  · cases taken
  obtain ⟨-, rfl⟩ := Prod.mk.inj (Option.some.inj taken)
  exact (List.dropWhile_suffix _).trans (List.dropWhile_suffix _)

/-- The binding that a line of a state file names. -/
def lineBinding (line : CString) : Option Binding :=
  match takeTok 16 line with
  | none => none
  | some (kind, rest) =>
    if kind = lit "grant" then
      match takeTok 128 rest with
      | none => none
      | some (subject, rest) => (takeTok 64 rest).map fun token => ⟨subject, token.1⟩
    else none

/-- What a line of the state file does: it keeps a policy sound, and a binding after it was
there before or is the one the line names. -/
theorem loadLine_spec {policy : Policy} (sound : policy.Sound) (alloc : Bool) (line : CString) :
    (loadLine alloc policy line).1.Sound ∧
      ∀ binding ∈ (loadLine alloc policy line).1.bindings,
        binding ∈ policy.bindings ∨ lineBinding line = some binding := by
  have unchanged (rc : Int) : (policy, rc).1.Sound ∧ ∀ binding ∈ (policy, rc).1.bindings,
      binding ∈ policy.bindings ∨ lineBinding line = some binding :=
    ⟨sound, fun _ found => .inl found⟩
  unfold loadLine
  cases first : takeTok 16 line with
  | none => exact unchanged _
  | some taken =>
    obtain ⟨kind, rest⟩ := taken
    dsimp only
    split
    · unfold loadRole
      split
      · exact unchanged _
      dsimp only
      split
      · exact unchanged _
      rename_i token
      split
      · exact unchanged _
      rename_i free
      split
      · exact unchanged _
      rename_i absent
      split
      · exact unchanged _
      simp only [Bool.not_eq_true, Bool.not_eq_false'] at token free absent
      exact ⟨appendRole_sound sound token free absent, fun _ found => .inl found⟩
    split
    · unfold applyPerm
      split
      · exact unchanged _
      split
      · exact unchanged _
      rename_i role _ _ _ action _ _
      dsimp only
      split
      · exact unchanged _
      refine ⟨roleAddPerm_sound sound role action _, ?_⟩
      intro binding found
      exact .inl (roleAddPerm_bindings policy role action _ ▸ found)
    split
    · rename_i granting
      unfold loadGrant
      cases second : takeTok 128 rest with
      | none => exact unchanged _
      | some owner =>
        obtain ⟨subject, behind⟩ := owner
        dsimp only
        cases third : takeTok 64 behind with
        | none => exact unchanged _
        | some bound =>
          obtain ⟨role, ending⟩ := bound
          dsimp only
          split
          · exact unchanged _
          rename_i present
          split
          · exact unchanged _
          rename_i absent
          split
          · exact unchanged _
          simp only [Bool.not_eq_true] at present absent
          have subjectFits := (takeTok_some second).2.1
          have roleFits := (takeTok_some third).2.1
          refine ⟨appendBinding_sound sound subjectFits present absent, ?_⟩
          intro binding found
          rcases List.mem_append.mp found with old | new
          · exact .inl old
          · rw [List.mem_singleton.mp new, snprintf_eq subjectFits, snprintf_eq roleFits]
            right
            simp only [lineBinding, first, granting, second, third, if_true]
            rfl
    · exact unchanged _

/-! ## The whole file -/

/-- Entries whose bindings come from a start and from lines. -/
def BoundBy (before : List Binding) (lines : List CString) (policy : Policy) : Prop :=
  ∀ binding ∈ policy.bindings, binding ∈ before ∨ ∃ line ∈ lines, lineBinding line = some binding

/-- A pass over lines keeps a policy sound, and the bindings after it were there before or are
named by the lines. -/
theorem foldl_loadLine (entries : List (CString × Bool)) {σ : Type}
    (pass : σ → CString × Bool → σ) (policyOf : σ → Policy)
    (applied : ∀ state entry, policyOf (pass state entry) =
      (loadLine entry.2 (policyOf state) entry.1).1)
    (state : σ) (sound : (policyOf state).Sound) :
    (policyOf (entries.foldl pass state)).Sound ∧
      BoundBy (policyOf state).bindings (entries.map Prod.fst)
        (policyOf (entries.foldl pass state)) := by
  induction entries generalizing state with
  | nil => exact ⟨sound, fun _ found => .inl found⟩
  | cons entry rest ih =>
    have line := loadLine_spec sound entry.2 entry.1
    rw [← applied] at line
    obtain ⟨after, bound⟩ := ih (pass state entry) line.1
    refine ⟨after, ?_⟩
    intro binding found
    rcases bound binding found with early | ⟨later, listed, named⟩
    · rcases line.2 binding early with old | named
      · exact .inl old
      · exact .inr ⟨entry.1, List.mem_cons_self, named⟩
    · exact .inr ⟨later, List.mem_cons_of_mem _ listed, named⟩

/-- Whatever a state file holds, the policy read from it is sound and every binding is named by
a line of it. -/
theorem stateLoad_spec (file : CString) (alloc : Nat → Bool) :
    (stateLoad file alloc).1.Sound ∧
      ∀ binding ∈ (stateLoad file alloc).1.bindings,
        ∃ line ∈ loadLines file, lineBinding line = some binding := by
  let entries := (loadLines file).mapIdx fun index line => (line, alloc index)
  let roles := entries.filter fun entry => isRoleLine entry.1
  let others := entries.filter fun entry => isOtherLine entry.1
  have lines : entries.map Prod.fst = loadLines file := by
    have kept : (Prod.fst ∘ fun (pair : CString × Nat) => (pair.1, alloc pair.2)) = Prod.fst := rfl
    simp only [entries, List.mapIdx_eq_zipIdx_map, List.map_map, kept, List.zipIdx_map_fst]
  have listed (select : CString × Bool → Bool) :
      ∀ line ∈ (entries.filter select).map Prod.fst, line ∈ loadLines file := by
    intro line found
    rw [← lines]
    exact (List.filter_sublist.map Prod.fst).subset found
  obtain ⟨first, begun⟩ := foldl_loadLine roles loadRoleLine Prod.fst
    (fun _ _ => rfl) (Policy.empty, 0) empty_sound
  obtain ⟨second, ended⟩ := foldl_loadLine others loadOtherLine id
    (fun _ _ => rfl) (roles.foldl loadRoleLine (Policy.empty, 0)).1 first
  refine ⟨second, ?_⟩
  intro binding found
  rcases ended binding found with early | ⟨line, inside, named⟩
  · rcases begun binding early with none | ⟨line, inside, named⟩
    · cases none
    · exact ⟨line, listed _ line inside, named⟩
  · exact ⟨line, listed _ line inside, named⟩

/-! ## Every run -/

/-- An operation keeps a policy sound. -/
theorem operate_sound (policy : Policy) (operation : Operation) (sound : policy.Sound) :
    (operate policy operation).Sound := by
  cases operation with
  | change action => exact policyStep_sound policy action sound
  | load file alloc =>
    cases file with
    | none => exact sound
    | some file => exact (stateLoad_spec file alloc).1
  | close => exact empty_sound

/-- Every reachable policy is sound. -/
theorem policyAfter_sound (operations : List Operation) : (policyAfter operations).Sound :=
  run_invariant Policy.Sound operate_sound empty_sound operations

/-- In every state of every run of changes and of loads of any files, role names are unique,
every binding names a role that exists, no binding repeats, and a role has at most 64 entries,
each once. -/
theorem operations_keep_structure (operations : List Operation) :
    AllStates operate
      (fun policy => (policy.roles.map Role.name).Nodup ∧
        (∀ binding ∈ policy.bindings, ∃ role ∈ policy.roles, role.name = binding.role) ∧
        policy.bindings.Nodup ∧
        ∀ role ∈ policy.roles, role.perms.length ≤ 64 ∧ role.perms.Nodup)
      Policy.empty operations := by
  have reached : AllStates operate Policy.Sound Policy.empty operations :=
    allStates_of_invariant operate_sound empty_sound operations
  refine reached.mono ?_
  intro policy sound
  refine ⟨sound.names, ?_, sound.distinct, ?_⟩
  · intro binding found
    exact List.mem_map.mp (sound.bound binding found)
  · intro role found
    have valid := sound.roles role found
    exact ⟨valid.few, valid.distinct⟩

/-! ## Listed bindings -/

/-- `ops_binding_list`: the code, the entries written and the count. -/
def opsBindingList (policy : Policy) (cap : Int) : Int × List Binding × Nat :=
  if cap ≤ 0 then (einval, [], 0)
  else
    (0, (policy.bindings.take cap.toNat).map fun binding =>
      ⟨snprintf 128 binding.subject, snprintf 64 binding.role⟩, policy.bindings.length)

/-- A line read holds no line feed. -/
theorem loadLines_oneLine {file line : CString} (found : line ∈ loadLines file) :
    newline ∉ line := by
  obtain ⟨raw, read, rfl⟩ := List.mem_map.mp (List.mem_filter.mp found).1
  obtain ⟨text, plain, shape⟩ := fgetsFrom_newline [] file List.not_mem_nil raw read
  have piece : (bufferText raw).dropWhile isBlank <:+: raw :=
    (List.dropWhile_suffix _).isInfix.trans (List.takeWhile_prefix _).isInfix
  exact rdropWhile_read plain shape piece (by decide)

/-- A subject that a line of a file names. -/
theorem subjectOk_line {file line : CString} {binding : Binding} (found : line ∈ loadLines file)
    (named : lineBinding line = some binding) : SubjectOk binding.subject := by
  unfold lineBinding at named
  split at named
  · cases named
  rename_i kind rest first
  split at named
  · split at named
    · cases named
    rename_i subject behind second
    obtain ⟨token, -, rfl⟩ := Option.map_eq_some_iff.mp named
    obtain ⟨filled, fits, bytes⟩ := takeTok_some second
    refine ⟨filled, fits, fun byte inside => (bytes byte inside).2, ?_⟩
    intro feed
    exact loadLines_oneLine found ((takeTok_rest first).subset (bytes newline feed).1)
  · cases named

/-- Every subject of a reachable policy came in through `grant` or through a file. -/
theorem policyAfter_subjects (operations : List Operation) :
    ∀ binding ∈ (policyAfter operations).bindings, SubjectOk binding.subject := by
  have kept : ∀ policy operation, (∀ binding ∈ policy.bindings, SubjectOk binding.subject) →
      ∀ binding ∈ (operate policy operation).bindings, SubjectOk binding.subject := by
    intro policy operation before binding found
    cases operation with
    | change action =>
      rcases policyStep_bindings found with old | ⟨-, token⟩
      · exact before binding old
      · exact subjectOk_token token
    | load file alloc =>
      cases file with
      | none => exact before binding found
      | some file =>
        obtain ⟨line, listed, named⟩ := (stateLoad_spec file alloc).2 binding found
        exact subjectOk_line listed named
    | close => cases found
  exact run_invariant _ kept (by simp [Policy.empty]) operations

/-- `revoke` accepts a subject of a reachable policy exactly when it holds neither `#` nor a
carriage return. -/
theorem tokenOk_subject {subject : CString} (ok : SubjectOk subject) :
    tokenOk subject 128 = true ↔ (35 : UInt8) ∉ subject ∧ (13 : UInt8) ∉ subject := by
  constructor
  · intro token
    constructor <;>
      · intro found
        exact absurd (tokenOk_plain token _ found) (by decide)
  · rintro ⟨hash, carriage⟩
    have plain : subject.any isTokenBreak = false := by
      rw [List.any_eq_false]
      intro byte found
      have solid := ok.solid byte found
      have line : byte ≠ newline := fun same => ok.oneLine (same ▸ found)
      have noHash : byte ≠ 35 := fun same => hash (same ▸ found)
      have noCarriage : byte ≠ 13 := fun same => carriage (same ▸ found)
      simp only [isBlank, Bool.or_eq_false_iff] at solid
      simp [isTokenBreak, isLineBlank, solid, line, noHash, noCarriage]
    simp [tokenOk, ok.filled, ok.fits, plain]

/-- What `revoke` does with a binding of a sound policy whose subject it accepts. -/
theorem revoke_listed {policy : Policy} (sound : policy.Sound) {binding : Binding}
    (listed : binding ∈ policy.bindings) (token : tokenOk binding.subject 128 = true) :
    revoke policy binding.subject binding.role =
      ({ policy with bindings := policy.bindings.filter (· ≠ binding) }, 0) := by
  have same (other : Binding) :
      Binding.isOf binding.subject binding.role other = decide (other = binding) := by
    cases other
    cases binding
    rw [Bool.eq_iff_iff]
    simp [Binding.isOf]
  obtain ⟨role, member, named⟩ := List.mem_map.mp (sound.bound binding listed)
  have roleToken : tokenOk binding.role 64 = true := named ▸ (sound.roles role member).name
  have found : (findBinding policy binding.subject binding.role).isNone = false := by
    rw [Option.isNone_eq_false_iff, findBinding, List.find?_isSome]
    exact ⟨binding, listed, by simp [same]⟩
  have erased : policy.bindings.eraseP (Binding.isOf binding.subject binding.role) =
      policy.bindings.filter (· ≠ binding) := by
    have predicate : Binding.isOf binding.subject binding.role = fun other => binding == other := by
      funext other
      rw [same, Bool.eq_iff_iff, decide_eq_true_iff, beq_iff_eq, eq_comm]
    rw [predicate, ← List.erase_eq_eraseP, sound.distinct.erase_eq_filter]
    apply List.filter_congr
    intro other _
    rw [Bool.eq_iff_iff, bne_iff_ne, decide_eq_true_iff]
  simp [revoke, token, roleToken, found, erased]

/-- In every reachable policy a listed binding can be revoked, and only it goes, exactly when
its subject holds neither `#` nor a carriage return. -/
theorem revoke_listed_iff (operations : List Operation) (cap : Int) :
    ∀ binding ∈ (opsBindingList (policyAfter operations) cap).2.1,
      ((revoke (policyAfter operations) binding.subject binding.role).2 = 0 ∧
        (revoke (policyAfter operations) binding.subject binding.role).1 =
          { policyAfter operations with
            bindings := (policyAfter operations).bindings.filter (· ≠ binding) }) ↔
      (35 : UInt8) ∉ binding.subject ∧ (13 : UInt8) ∉ binding.subject := by
  intro binding reported
  have sound := policyAfter_sound operations
  have listed : binding ∈ (policyAfter operations).bindings := by
    unfold opsBindingList at reported
    split at reported
    · cases reported
    obtain ⟨stored, inside, rfl⟩ := List.mem_map.mp reported
    have member := List.mem_of_mem_take inside
    have subject := policyAfter_subjects operations stored member
    obtain ⟨role, held, named⟩ := List.mem_map.mp (sound.bound stored member)
    have roleFits : stored.role.length < 64 := named ▸ tokenOk_fits (sound.roles role held).name
    rw [snprintf_eq subject.fits, snprintf_eq roleFits]
    exact member
  rw [← tokenOk_subject (policyAfter_subjects operations binding listed)]
  constructor
  · rintro ⟨done, -⟩
    by_contra broken
    have refused : (revoke (policyAfter operations) binding.subject binding.role).2 = einval := by
      rw [Bool.not_eq_true] at broken
      rw [revoke, if_pos (by rw [broken]; rfl)]
    rw [refused] at done
    exact absurd done (by decide)
  · intro token
    rw [revoke_listed sound listed token]
    exact ⟨rfl, rfl⟩

/-- A subject of a loaded file without either byte is revoked. -/
theorem revoke_loaded_subject :
    ((revoke (policyAfter [.load (some (lit "role admin\ngrant alice admin\n")) fun _ => true])
          (lit "alice") (lit "admin")).2 = 0 ∧
        (revoke (policyAfter [.load (some (lit "role admin\ngrant alice admin\n")) fun _ => true])
          (lit "alice") (lit "admin")).1 = ⟨[⟨lit "admin", [], []⟩], []⟩) ∧
      (35 : UInt8) ∉ lit "alice" ∧ (13 : UInt8) ∉ lit "alice" := by
  have listed : ⟨lit "alice", lit "admin"⟩ ∈
      (opsBindingList (policyAfter [.load (some (lit "role admin\ngrant alice admin\n"))
        fun _ => true]) 1).2.1 := by decide +kernel
  have plain : (35 : UInt8) ∉ lit "alice" ∧ (13 : UInt8) ∉ lit "alice" := by decide
  obtain ⟨done, after⟩ := (revoke_listed_iff _ 1 _ listed).mpr plain
  refine ⟨⟨done, after.trans ?_⟩, plain⟩
  decide +kernel

/-- A state file that binds a subject with a `#` inside. -/
def hashedSubject : List Operation :=
  [.load (some (lit "role admin\ngrant al#ice admin\n")) fun _ => true]

/-- The listed binding of a loaded file is refused by `revoke`. -/
theorem loaded_binding_stays :
    ¬ ∀ (operations : List Operation) (cap : Int),
      ∀ binding ∈ (opsBindingList (policyAfter operations) cap).2.1,
        (revoke (policyAfter operations) binding.subject binding.role).2 = 0 ∧
          (revoke (policyAfter operations) binding.subject binding.role).1 =
            { policyAfter operations with
              bindings := (policyAfter operations).bindings.filter (· ≠ binding) } := by
  intro always
  have listed : ⟨lit "al#ice", lit "admin"⟩ ∈
      (opsBindingList (policyAfter hashedSubject) 1).2.1 := by decide +kernel
  have refused : (revoke (policyAfter hashedSubject) (lit "al#ice") (lit "admin")).2 = einval := by
    decide +kernel
  have done := (always hashedSubject 1 _ listed).1
  exact absurd (refused.symm.trans done) (by decide)

end HwrunOs.Permission
