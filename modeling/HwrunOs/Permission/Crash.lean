import HwrunOs.Library.Replace
import HwrunOs.Permission.SaveRace
import HwrunOs.Permission.Stability

/-!
# Crashes

Every change of the policy is followed by a save, which may fail with no more than a warning, and
the plugin may die at any time. `state_write_locked` does not look at what `fprintf` returns, and
`fclose` reports the last write only, so a write that fails in between is lost without a word. As
long as that does not happen, the state file is always the text of a policy that was saved as a
whole, and a start goes back to the decisions of that policy.
-/

namespace HwrunOs.Permission

open HwrunOs.Bytes HwrunOs.Runs HwrunOs.Lookup HwrunOs.Replace

/-! ## Policies that are read back -/

/-- The resource pattern of an action has no blank at an end. -/
def Action.Solid : Action → Prop
  | .roleAddPerm _ _ resource => hasBlankEnd (resource.getD []) = false
  | _ => True

instance (action : Action) : Decidable action.Solid := by
  unfold Action.Solid
  split <;> infer_instance

/-- An entry of a policy after a change is one of the policy before, or the one that came. -/
theorem policyStep_perms (policy : Policy) (action : Action) :
    ∀ role ∈ (policyStep policy action).roles, ∀ perm ∈ role.perms,
      (∃ before ∈ policy.roles, perm ∈ before.perms) ∨
        ∃ name pattern resource, action = .roleAddPerm name pattern resource ∧
          freeTextOk (resource.getD []) 256 = true ∧
            perm.resource = snprintf 256 (resource.getD []) := by
  intro role listed perm found
  have old (before : role ∈ policy.roles) : ∃ before ∈ policy.roles, perm ∈ before.perms :=
    ⟨role, before, found⟩
  cases action with
  | roleAdd name description alloc =>
    simp only [policyStep, roleAdd] at listed
    split_ifs at listed
    · exact .inl (old listed)
    · exact .inl (old listed)
    · exact .inl (old listed)
    · exact .inl (old listed)
    · rcases List.mem_append.mp listed with before | new
      · exact .inl (old before)
      · rw [List.mem_singleton.mp new] at found
        cases found
  | roleRemove name =>
    simp only [policyStep, roleRemove] at listed
    split_ifs at listed
    · exact .inl (old listed)
    · exact .inl (old (List.mem_of_mem_eraseP listed))
  | roleAddPerm name pattern resource =>
    simp only [policyStep, roleAddPerm] at listed
    split at listed
    · exact .inl (old listed)
    · split_ifs at listed with token free
      · exact .inl (old listed)
      · exact .inl (old listed)
      · exact .inl (old listed)
      · exact .inl (old listed)
      · rcases mem_updateFirst listed with before | ⟨first, searched, rfl⟩
        · exact .inl (old before)
        · rcases List.mem_append.mp found with kept | new
          · exact .inl ⟨first, List.mem_of_find?_eq_some searched, kept⟩
          · rw [List.mem_singleton.mp new]
            exact .inr ⟨name, pattern, resource, rfl, by simpa using free, rfl⟩
  | roleRemovePerm name pattern resource =>
    simp only [policyStep, roleRemovePerm] at listed
    split at listed
    · exact .inl (old listed)
    · split_ifs at listed
      · exact .inl (old listed)
      · exact .inl (old listed)
      · rcases mem_updateFirst listed with before | ⟨first, searched, rfl⟩
        · exact .inl (old before)
        · exact .inl ⟨first, List.mem_of_find?_eq_some searched, List.mem_of_mem_eraseP found⟩
      · exact .inl (old listed)
  | grant subject name alloc =>
    simp only [policyStep, grant] at listed
    split_ifs at listed <;> exact .inl (old listed)
  | revoke subject name =>
    simp only [policyStep, revoke] at listed
    split_ifs at listed <;> exact .inl (old listed)

/-- A change whose resource pattern has no blank at an end leaves none in the policy. -/
theorem policyStep_solid {policy : Policy} (solid : policy.Solid) {action : Action}
    (kept : action.Solid) : (policyStep policy action).Solid := by
  intro role listed perm found
  rcases policyStep_perms policy action role listed perm found with
    ⟨before, member, old⟩ | ⟨name, pattern, resource, rfl, free, same⟩
  · exact solid before member perm old
  · rw [same, snprintf_eq (freeTextOk_fits free)]
    exact kept

/-- What is read back of a valid role without such blanks is the role with its description
trimmed. -/
theorem Role.reloaded_eq {role : Role} (valid : role.Valid)
    (solid : ∀ perm ∈ role.perms, hasBlankEnd perm.resource = false) :
    role.reloaded = { role with description := trimWs role.description } := by
  have kept : role.perms.map Perm.reloaded = role.perms := by
    conv_rhs => rw [← List.map_id role.perms]
    apply List.map_congr_left
    intro perm member
    rw [Perm.reloaded, trimWs_solid (valid.perms perm member).resource (solid perm member)]
    rfl
  unfold Role.reloaded
  rw [kept, foldl_addNew (by simpa using valid.distinct), List.nil_append]

/-- What is read back of a valid policy without such blanks is valid and has none either. -/
theorem Policy.Valid.reloaded {policy : Policy} (valid : policy.Valid) (solid : policy.Solid) :
    policy.reloaded.Valid ∧ policy.reloaded.Solid := by
  have whole (role : Role) (listed : role ∈ policy.roles) :=
    Role.reloaded_eq (valid.roles role listed) (solid role listed)
  have names : policy.reloaded.roles.map Role.name = policy.roles.map Role.name := by
    show (policy.roles.map Role.reloaded).map Role.name = _
    rw [List.map_map]
    rfl
  refine ⟨⟨?_, ?_, valid.subjects, ?_, valid.distinct⟩, ?_⟩
  · intro role listed
    obtain ⟨before, member, rfl⟩ := List.mem_map.mp listed
    have role_ := valid.roles before member
    rw [whole before member]
    exact ⟨role_.name, (trimWs_free role_.description).2, role_.perms, role_.distinct, role_.few⟩
  · rw [names]
    exact valid.names
  · rw [names]
    exact valid.bound
  · intro role listed perm found
    obtain ⟨before, member, rfl⟩ := List.mem_map.mp listed
    rw [whole before member] at found
    exact solid before member perm found

/-! ## The plugin and its file -/

/-- The plugin: a change that is refused is not saved, and a start reads the file. -/
def policySaver : Saver Policy Action UInt8 where
  first := .empty
  change policy action :=
    if (perform policy action).2 = 0 then some (perform policy action).1 else none
  text := stateText
  load file := (stateRead file).1

/-- What is read back of a valid policy is the reloaded one. -/
theorem policySaver_load {policy : Policy} (valid : policy.Valid) :
    policySaver.load (policySaver.text policy) = policy.reloaded := by
  unfold policySaver
  dsimp only
  rw [stateRead_stateText valid.writable]

/-- Two policies decide the same. -/
def SameDecisions (first second : Policy) : Prop :=
  ∀ subject action resource,
    opsCheck first subject action resource = opsCheck second subject action resource

/-- The plugin gets back from its file what decisions need. -/
theorem policySaver_restores :
    policySaver.Restores (fun policy => policy.Valid ∧ policy.Solid) Action.Solid
      SameDecisions where
  first := ⟨reachable_valid [], by
    intro role listed
    cases listed⟩
  change := by
    rintro policy action next ⟨valid, solid⟩ good changed
    have stepped : next = policyStep policy action := by
      unfold policySaver at changed
      dsimp only at changed
      split at changed
      · rw [← Option.some.inj changed, perform_policy]
      · cases changed
    rw [stepped]
    exact ⟨policyStep_valid policy action valid, policyStep_solid solid good⟩
  load := by
    rintro policy ⟨valid, solid⟩
    rw [policySaver_load valid]
    exact valid.reloaded solid
  refl _ _ _ _ := rfl
  back := by
    rintro policy ⟨valid, solid⟩ subject action resource
    rw [policySaver_load valid]
    exact opsCheck_reloaded valid solid subject action resource

/-- What a crash leaves: the file is the text of the policy that was saved last, a start decides as
that policy, and as the one in memory if that was not changed since. -/
structure CrashSafe (disk : Disk Policy UInt8) : Prop where
  /-- The file is a whole text. -/
  file : disk.file = disk.saved.map stateText
  /-- A start goes back to the policy that was saved last. -/
  saved : SameDecisions (policySaver.step disk .crash).memory (disk.saved.getD .empty)
  /-- Nothing is lost of a policy that was saved. -/
  clean : disk.dirty = false →
    SameDecisions (policySaver.step disk .crash).memory disk.memory

/-- In every run of changes, of saves that are written in any number of parts and may fail, of loads
and of crashes, in which no write is lost without a word, the policy survives a crash. -/
theorem policy_survives_crash (events : List (Event Action))
    (fair : ∀ event ∈ events, event.Fair Action.Solid) :
    AllStates policySaver.step CrashSafe policySaver.start events :=
  (policySaver_restores.run fair).mono fun _ intact =>
    ⟨intact.file, policySaver_restores.crash intact, intact.clean⟩

/-- A grant that is saved in two parts, and one whose save fails before the plugin dies. -/
def crashEvents : List (Event Action) :=
  [.change (.roleAdd (lit "viewer") none true),
    .change (.roleAddPerm (lit "viewer") (lit "fs.*") (some (lit "/data/*")))] ++
  [.change (.grant (lit "alice") (lit "viewer") true), .openTemp, .write 40, .write 1000, .rename,
    .change (.revoke (lit "alice") (lit "viewer")), .openTemp, .write 7, .fail, .crash]

/-- The plugin survives, with the grant that was saved. -/
theorem policy_survives_crash_granted :
    AllStates policySaver.step CrashSafe policySaver.start crashEvents :=
  policy_survives_crash crashEvents (by
    intro event listed
    simp only [crashEvents, List.cons_append, List.nil_append, List.mem_cons, List.not_mem_nil,
      or_false] at listed
    rcases listed with rfl | rfl | rfl | rfl | rfl | rfl | rfl | rfl | rfl | rfl | rfl | rfl
    all_goals trivial)

/-- A write that is lost without a word takes the place of a policy that was saved. -/
theorem lost_write_breaks (disk : Disk Policy UInt8) (idle : disk.rest = none) :
    (run policySaver.step disk [.openTemp, .lose (stateText disk.memory).length, .rename]).file =
      some [] := by
  simp [run, Saver.step, idle, policySaver]

end HwrunOs.Permission
