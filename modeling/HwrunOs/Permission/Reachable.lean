import HwrunOs.Permission.Policy

/-!
# Reachable policies

What every change of the policy keeps: role names are different tokens, the entries of a role
are different and pass the checks they were added under, and every binding is bound to a role
that exists.
-/

namespace HwrunOs.Permission

open HwrunOs.Bytes HwrunOs.Runs HwrunOs.Lookup

/-! ## Valid policies -/

/-- An entry as `role_add_perm` accepts it. -/
structure Perm.Valid (perm : Perm) : Prop where
  /-- The action pattern is a token. -/
  action : tokenOk perm.action 64 = true
  /-- The resource pattern is free text. -/
  resource : freeTextOk perm.resource 256 = true

/-- A role whose texts pass their checks and whose entries do not repeat. -/
structure Role.Valid (role : Role) : Prop where
  /-- The name is a token. -/
  name : tokenOk role.name 64 = true
  /-- The description is free text. -/
  description : freeTextOk role.description 256 = true
  /-- Every entry was accepted. -/
  perms : ∀ perm ∈ role.perms, perm.Valid
  /-- No entry repeats. -/
  distinct : role.perms.Nodup
  /-- The entries fit their array. -/
  few : role.perms.length ≤ 64

/-- A policy whose names identify roles and whose bindings are bound to its roles, whatever the
subjects of the bindings are. -/
structure Policy.Sound (policy : Policy) : Prop where
  /-- Every role is valid. -/
  roles : ∀ role ∈ policy.roles, role.Valid
  /-- No name repeats. -/
  names : (policy.roles.map Role.name).Nodup
  /-- Every binding is bound to a role that exists. -/
  bound : ∀ binding ∈ policy.bindings, binding.role ∈ policy.roles.map Role.name
  /-- No binding repeats. -/
  distinct : policy.bindings.Nodup

/-- A policy whose names identify roles and whose bindings are bound to its roles. -/
structure Policy.Valid (policy : Policy) : Prop where
  /-- Every role is valid. -/
  roles : ∀ role ∈ policy.roles, role.Valid
  /-- No name repeats. -/
  names : (policy.roles.map Role.name).Nodup
  /-- Every subject is a token. -/
  subjects : ∀ binding ∈ policy.bindings, tokenOk binding.subject 128 = true
  /-- Every binding is bound to a role that exists. -/
  bound : ∀ binding ∈ policy.bindings, binding.role ∈ policy.roles.map Role.name
  /-- No binding repeats. -/
  distinct : policy.bindings.Nodup

/-! ## Checked texts -/

/-- A token has room for its terminating zero. -/
theorem tokenOk_fits {text : CString} {max : Nat} (token : tokenOk text max = true) :
    text.length < max := by
  simp only [tokenOk, Bool.and_eq_true, decide_eq_true_eq] at token
  exact token.1.2

/-- A token is not empty. -/
theorem tokenOk_filled {text : CString} {max : Nat} (token : tokenOk text max = true) :
    text ≠ [] := by
  simp only [tokenOk, Bool.and_eq_true, Bool.not_eq_true', List.isEmpty_eq_false_iff] at token
  exact token.1.1

/-- A token holds neither blanks nor line ends nor `#`. -/
theorem tokenOk_plain {text : CString} {max : Nat} (token : tokenOk text max = true) :
    ∀ byte ∈ text, isTokenBreak byte = false := by
  simp only [tokenOk, Bool.and_eq_true, Bool.not_eq_true', List.any_eq_false] at token
  intro byte found
  simpa using token.2 byte found

/-- A free text has room for its terminating zero. -/
theorem freeTextOk_fits {text : CString} {max : Nat} (free : freeTextOk text max = true) :
    text.length < max := by
  simp only [freeTextOk, Bool.and_eq_true, decide_eq_true_eq] at free
  exact free.1

/-- A free text is on one line. -/
theorem freeTextOk_plain {text : CString} {max : Nat} (free : freeTextOk text max = true) :
    newline ∉ text := by
  simp only [freeTextOk, Bool.and_eq_true, Bool.not_eq_true', List.any_eq_false] at free
  intro feed
  have kept := free.2 newline feed
  simp at kept

/-! ## Looking up roles -/

/-- A role that is found has the name searched for and is a role of the policy. -/
theorem findRole_some {policy : Policy} {name : CString} {role : Role}
    (found : findRole policy name = some role) : role ∈ policy.roles ∧ role.name = name := by
  have matched : Role.isNamed name role = true := List.find?_some found
  exact ⟨List.mem_of_find?_eq_some found, beq_iff_eq.mp matched⟩

/-- A role that is not found is not there. -/
theorem findRole_none {policy : Policy} {name : CString} :
    (findRole policy name).isSome = false ↔ name ∉ policy.roles.map Role.name := by
  simp [findRole, Role.isNamed]

/-- A role is found by a name of the policy. -/
theorem findRole_isNone {policy : Policy} {name : CString} :
    (findRole policy name).isNone = false ↔ name ∈ policy.roles.map Role.name := by
  simp [findRole, Role.isNamed]

/-! ## Each change keeps soundness -/

/-- The policy without roles is sound. -/
theorem empty_sound : Policy.empty.Sound := by
  refine ⟨?_, List.nodup_nil, ?_, List.nodup_nil⟩ <;>
    · intro item found
      cases found

/-- A valid policy is sound. -/
theorem Policy.Valid.sound {policy : Policy} (valid : policy.Valid) : policy.Sound :=
  ⟨valid.roles, valid.names, valid.bound, valid.distinct⟩

/-- A new role without entries keeps a policy sound. -/
theorem appendRole_sound {policy : Policy} (sound : policy.Sound) {name description : CString}
    (token : tokenOk name 64 = true) (free : freeTextOk description 256 = true)
    (absent : (findRole policy name).isSome = false) :
    (appendRole policy name description).Sound := by
  have fresh : name ∉ policy.roles.map Role.name := findRole_none.mp absent
  have nameFits := snprintf_eq (tokenOk_fits token)
  have descriptionFits := snprintf_eq (freeTextOk_fits free)
  have added : (⟨name, description, []⟩ : Role).Valid :=
    ⟨token, free, by simp, List.nodup_nil, by simp⟩
  simp only [appendRole, nameFits, descriptionFits]
  refine ⟨?_, ?_, ?_, sound.distinct⟩
  · intro role found
    rcases List.mem_append.mp found with old | new
    · exact sound.roles role old
    · rw [List.mem_singleton.mp new]
      exact added
  · rw [List.map_append]
    exact sound.names.append (List.nodup_singleton _) (by simpa using fresh)
  · intro binding found
    rw [List.map_append]
    exact List.mem_append_left _ (sound.bound binding found)

/-- A new binding to a role that exists keeps a policy sound. -/
theorem appendBinding_sound {policy : Policy} (sound : policy.Sound) {subject role : CString}
    (fits : subject.length < 128) (found : (findRole policy role).isNone = false)
    (absent : (findBinding policy subject role).isSome = false) :
    (appendBinding policy subject role).Sound := by
  have listed : role ∈ policy.roles.map Role.name := findRole_isNone.mp found
  have short : role.length < 64 := by
    obtain ⟨named, member, rfl⟩ := List.mem_map.mp listed
    exact tokenOk_fits (sound.roles named member).name
  have fresh : (⟨subject, role⟩ : Binding) ∉ policy.bindings := by
    intro member
    rw [findBinding, Option.isSome_eq_false_iff, Option.isNone_iff_eq_none,
      List.find?_eq_none] at absent
    exact absent _ member (by simp [Binding.isOf])
  simp only [appendBinding, snprintf_eq fits, snprintf_eq short]
  refine ⟨sound.roles, sound.names, ?_, ?_⟩
  · intro binding present
    rcases List.mem_append.mp present with old | new
    · exact sound.bound binding old
    · rw [List.mem_singleton.mp new]
      exact listed
  · exact sound.distinct.append (List.nodup_singleton _) (by simpa using fresh)

/-- Adding a role keeps a policy sound. -/
theorem roleAdd_sound {policy : Policy} (sound : policy.Sound) (name : CString)
    (description : Option CString) (alloc : Bool) :
    (roleAdd policy name description alloc).1.Sound := by
  unfold roleAdd
  split
  · exact sound
  rename_i token
  split
  · exact sound
  rename_i free
  split
  · exact sound
  rename_i absent
  split
  · exact sound
  simp only [Bool.not_eq_true, Bool.not_eq_false'] at token free absent
  exact appendRole_sound sound token free absent

/-- Removing a role and its bindings keeps a policy sound. -/
theorem roleRemove_sound {policy : Policy} (sound : policy.Sound) (name : CString) :
    (roleRemove policy name).1.Sound := by
  unfold roleRemove
  split
  · exact sound
  refine ⟨?_, ?_, ?_, sound.distinct.filter _⟩
  · intro role found
    exact sound.roles role (List.mem_of_mem_eraseP found)
  · exact sound.names.sublist (List.eraseP_sublist.map _)
  · intro binding found
    obtain ⟨listed, other⟩ := List.mem_filter.mp found
    obtain ⟨role, member, named⟩ := List.mem_map.mp (sound.bound binding listed)
    have kept : ¬ Role.isNamed name role = true := by
      rw [Role.isNamed, named]
      simpa using other
    exact List.mem_map.mpr ⟨role, (List.mem_eraseP_of_neg kept).mpr member, named⟩

/-- Changing the entries of one role keeps a policy sound when it keeps that role valid. -/
theorem updateRole_sound {policy : Policy} (sound : policy.Sound) {name : CString}
    {change : Role → Role} (named : ∀ role, (change role).name = role.name)
    (changed : ∀ role, findRole policy name = some role → (change role).Valid) :
    ({ policy with roles := updateRole name change policy.roles } : Policy).Sound := by
  have names : (updateRole name change policy.roles).map Role.name =
      policy.roles.map Role.name := map_updateFirst named policy.roles
  refine ⟨?_, ?_, ?_, sound.distinct⟩
  · intro role found
    rcases mem_updateFirst found with old | ⟨first, search, rfl⟩
    · exact sound.roles role old
    · exact changed first search
  · exact names ▸ sound.names
  · exact fun binding found => names ▸ sound.bound binding found

/-- Adding an entry keeps a policy sound. -/
theorem roleAddPerm_sound {policy : Policy} (sound : policy.Sound) (role action : CString)
    (resource : Option CString) : (roleAddPerm policy role action resource).1.Sound := by
  unfold roleAddPerm
  split
  · exact sound
  rename_i found search
  dsimp only
  split
  · exact sound
  rename_i token
  split
  · exact sound
  rename_i free
  split
  · exact sound
  rename_i absent
  split
  · exact sound
  rename_i room
  simp only [Bool.not_eq_true, Bool.not_eq_false'] at token free absent
  rw [snprintf_eq (tokenOk_fits token), snprintf_eq (freeTextOk_fits free)]
  refine updateRole_sound sound (fun _ => rfl) ?_
  intro other same
  obtain rfl : found = other := Option.some.inj (search.symm.trans same)
  have before := sound.roles found (findRole_some search).1
  have fresh : (⟨action, resource.getD []⟩ : Perm) ∉ found.perms := by
    intro member
    have matched := List.any_eq_false.mp absent _ member
    simp [Perm.isOf] at matched
  refine ⟨before.name, before.description, ?_, ?_, ?_⟩
  · intro perm member
    rcases List.mem_append.mp member with old | new
    · exact before.perms perm old
    · rw [List.mem_singleton.mp new]
      exact ⟨token, free⟩
  · exact before.distinct.append (List.nodup_singleton _) (by simpa using fresh)
  · rw [List.length_append, List.length_singleton]
    omega

/-- Removing an entry keeps a policy sound. -/
theorem roleRemovePerm_sound {policy : Policy} (sound : policy.Sound) (role action : CString)
    (resource : Option CString) : (roleRemovePerm policy role action resource).1.Sound := by
  unfold roleRemovePerm
  split
  · exact sound
  rename_i found search
  dsimp only
  split
  · exact sound
  split
  · exact sound
  split
  · refine updateRole_sound sound (fun _ => rfl) ?_
    intro other same
    have before := sound.roles other (findRole_some same).1
    have fewer : (other.perms.eraseP (Perm.isOf action (resource.getD []))).Sublist other.perms :=
      List.eraseP_sublist
    exact ⟨before.name, before.description,
      fun perm member => before.perms perm (fewer.subset member),
      before.distinct.sublist fewer, Nat.le_trans fewer.length_le before.few⟩
  · exact sound

/-- Binding a subject keeps a policy sound. -/
theorem grant_sound {policy : Policy} (sound : policy.Sound) (subject role : CString)
    (alloc : Bool) : (grant policy subject role alloc).1.Sound := by
  unfold grant
  split
  · exact sound
  rename_i subjectToken
  split
  · exact sound
  split
  · exact sound
  rename_i present
  split
  · exact sound
  rename_i absent
  split
  · exact sound
  simp only [Bool.not_eq_true, Bool.not_eq_false'] at subjectToken present absent
  exact appendBinding_sound sound (tokenOk_fits subjectToken) present absent

/-- Unbinding a subject keeps a policy sound. -/
theorem revoke_sound {policy : Policy} (sound : policy.Sound) (subject role : CString) :
    (revoke policy subject role).1.Sound := by
  unfold revoke
  split
  · exact sound
  split
  · exact sound
  split
  · exact sound
  exact ⟨sound.roles, sound.names,
    fun binding found => sound.bound binding (List.mem_of_mem_eraseP found),
    sound.distinct.sublist List.eraseP_sublist⟩

/-- A change keeps a policy sound. -/
theorem policyStep_sound (policy : Policy) (action : Action) (sound : policy.Sound) :
    (policyStep policy action).Sound := by
  cases action with
  | roleAdd name description alloc => exact roleAdd_sound sound name description alloc
  | roleRemove name => exact roleRemove_sound sound name
  | roleAddPerm role action resource => exact roleAddPerm_sound sound role action resource
  | roleRemovePerm role action resource => exact roleRemovePerm_sound sound role action resource
  | grant subject role alloc => exact grant_sound sound subject role alloc
  | revoke subject role => exact revoke_sound sound subject role

/-! ## New bindings -/

/-- A change that grants a binding. -/
def grantsBinding (policy : Policy) (binding : Binding) : Action → Prop
  | .grant subject role alloc =>
    (grant policy subject role alloc).2 = 0 ∧ binding = ⟨subject, role⟩
  | _ => False

/-- Adding an entry leaves the bindings alone. -/
theorem roleAddPerm_bindings (policy : Policy) (role action : CString)
    (resource : Option CString) :
    (roleAddPerm policy role action resource).1.bindings = policy.bindings := by
  unfold roleAddPerm
  split
  · rfl
  dsimp only
  split_ifs <;> rfl

/-- Removing an entry leaves the bindings alone. -/
theorem roleRemovePerm_bindings (policy : Policy) (role action : CString)
    (resource : Option CString) :
    (roleRemovePerm policy role action resource).1.bindings = policy.bindings := by
  unfold roleRemovePerm
  split
  · rfl
  dsimp only
  split_ifs <;> rfl

/-- Adding a role leaves the bindings alone. -/
theorem roleAdd_bindings (policy : Policy) (name : CString) (description : Option CString)
    (alloc : Bool) : (roleAdd policy name description alloc).1.bindings = policy.bindings := by
  unfold roleAdd
  split_ifs <;> rfl

/-- What a grant does: nothing with an error, or one more binding of checked texts. -/
theorem grant_cases (policy : Policy) (subject role : CString) (alloc : Bool) :
    ((grant policy subject role alloc).1 = policy ∧ (grant policy subject role alloc).2 < 0) ∨
    ((grant policy subject role alloc).2 = 0 ∧ tokenOk subject 128 = true ∧
      (grant policy subject role alloc).1 =
        { policy with bindings := policy.bindings ++ [⟨subject, role⟩] }) := by
  unfold grant
  split
  · exact .inl ⟨rfl, by show einval < 0; decide⟩
  rename_i subjectToken
  split
  · exact .inl ⟨rfl, by show einval < 0; decide⟩
  rename_i roleToken
  split
  · exact .inl ⟨rfl, by show enoent < 0; decide⟩
  split
  · exact .inl ⟨rfl, by show eexist < 0; decide⟩
  split
  · exact .inl ⟨rfl, by show enomem < 0; decide⟩
  simp only [Bool.not_eq_true, Bool.not_eq_false'] at subjectToken roleToken
  refine .inr ⟨rfl, subjectToken, ?_⟩
  rw [appendBinding, snprintf_eq (tokenOk_fits subjectToken), snprintf_eq (tokenOk_fits roleToken)]

/-- A binding after a change was there before or was granted by it. -/
theorem policyStep_bindings {policy : Policy} {action : Action} {binding : Binding}
    (found : binding ∈ (policyStep policy action).bindings) :
    binding ∈ policy.bindings ∨
      (grantsBinding policy binding action ∧ tokenOk binding.subject 128 = true) := by
  cases action with
  | roleAdd name description alloc =>
    exact .inl (roleAdd_bindings policy name description alloc ▸ found)
  | roleAddPerm role action resource =>
    exact .inl (roleAddPerm_bindings policy role action resource ▸ found)
  | roleRemovePerm role action resource =>
    exact .inl (roleRemovePerm_bindings policy role action resource ▸ found)
  | roleRemove name =>
    simp only [policyStep, roleRemove] at found
    split at found
    · exact .inl found
    · exact .inl (List.mem_filter.mp found).1
  | revoke subject role =>
    simp only [policyStep, revoke] at found
    split_ifs at found
    · exact .inl found
    · exact .inl found
    · exact .inl found
    · exact .inl (List.mem_of_mem_eraseP found)
  | grant subject role alloc =>
    rcases grant_cases policy subject role alloc with ⟨same, -⟩ | ⟨done, token, after⟩
    · exact .inl (same ▸ found)
    · rw [policyStep, after] at found
      rcases List.mem_append.mp found with old | new
      · exact .inl old
      · rw [List.mem_singleton.mp new]
        exact .inr ⟨⟨done, rfl⟩, token⟩

/-! ## Every run -/

/-- A change keeps a policy valid. -/
theorem policyStep_valid (policy : Policy) (action : Action) (valid : policy.Valid) :
    (policyStep policy action).Valid := by
  have sound := policyStep_sound policy action valid.sound
  refine ⟨sound.roles, sound.names, ?_, sound.bound, sound.distinct⟩
  intro binding found
  rcases policyStep_bindings found with old | ⟨-, token⟩
  · exact valid.subjects binding old
  · exact token

/-- Every reachable policy is valid. -/
theorem reachable_valid (actions : List Action) :
    (run policyStep Policy.empty actions).Valid := by
  have initial : Policy.empty.Valid :=
    ⟨empty_sound.roles, List.nodup_nil, by simp [Policy.empty], empty_sound.bound, List.nodup_nil⟩
  exact run_invariant Policy.Valid policyStep_valid initial actions

end HwrunOs.Permission
