import HwrunOs.Library.Roles
import HwrunOs.Permission.Decision
import HwrunOs.Permission.SaveRace
import Mathlib.Data.Set.Card

/-!
# The policy as role-based access control

The role table and the binding table are lists that are searched from the front. Seen from outside
they are sets: every call returns what the sets call for, changes them as an operation on sets, and
a check asks whether the sets allow the request.
-/

namespace HwrunOs.Permission

open HwrunOs.Bytes HwrunOs.Runs HwrunOs.Lookup HwrunOs.Roles

/-! ## The sets -/

/-- Roles by their names, and bindings by their subjects. -/
abbrev PolicySets := Rbac CString Perm CString

/-- The sets of a policy. -/
def Policy.sets (policy : Policy) : PolicySets where
  roles := {name | (findRole policy name).isSome = true}
  perms name := {perm | ∃ role, findRole policy name = some role ∧ perm ∈ role.perms}
  assigned := {entry | (⟨entry.1, entry.2⟩ : Binding) ∈ policy.bindings}

/-- An entry covers a request for an action on a resource. -/
def coversRequest (perm : Perm) (request : CString × CString) : Prop :=
  perm.Covers request.1 request.2

open Classical in
/-- What a change does to the sets, and what it returns. -/
noncomputable def setsPerform (sets : PolicySets) : Action → PolicySets × Int
  | .roleAdd name description alloc =>
    if tokenOk name 64 = false then (sets, einval)
    else if freeTextOk (description.getD []) 256 = false then (sets, einval)
    else if name ∈ sets.roles then (sets, eexist)
    else if alloc = false then (sets, enomem)
    else (sets.addRole name, 0)
  | .roleRemove name => if name ∈ sets.roles then (sets.deleteRole name, 0) else (sets, enoent)
  | .roleAddPerm role action resource =>
    if role ∉ sets.roles then (sets, enoent)
    else if tokenOk action 64 = false then (sets, einval)
    else if freeTextOk (resource.getD []) 256 = false then (sets, einval)
    else if ⟨action, resource.getD []⟩ ∈ sets.perms role then (sets, eexist)
    else if 64 ≤ (sets.perms role).ncard then (sets, enospc)
    else (sets.addPerm role ⟨action, resource.getD []⟩, 0)
  | .roleRemovePerm role action resource =>
    if role ∉ sets.roles then (sets, enoent)
    else if tokenOk action 64 = false then (sets, einval)
    else if freeTextOk (resource.getD []) 256 = false then (sets, einval)
    else if ⟨action, resource.getD []⟩ ∈ sets.perms role then
      (sets.removePerm role ⟨action, resource.getD []⟩, 0)
    else (sets, enoent)
  | .grant subject role alloc =>
    if tokenOk subject 128 = false then (sets, einval)
    else if tokenOk role 64 = false then (sets, einval)
    else if role ∉ sets.roles then (sets, enoent)
    else if (subject, role) ∈ sets.assigned then (sets, eexist)
    else if alloc = false then (sets, enomem)
    else (sets.assign subject role, 0)
  | .revoke subject role =>
    if tokenOk subject 128 = false then (sets, einval)
    else if tokenOk role 64 = false then (sets, einval)
    else if (subject, role) ∈ sets.assigned then (sets.deassign subject role, 0)
    else (sets, enoent)

/-! ## Lookups -/

/-- A role is in the sets when it is found. -/
theorem mem_roles {policy : Policy} {name : CString} :
    name ∈ policy.sets.roles ↔ (findRole policy name).isSome = true := Iff.rfl

/-- A binding is in the sets when it is found. -/
theorem mem_assigned {policy : Policy} {subject role : CString} :
    (subject, role) ∈ policy.sets.assigned ↔ (findBinding policy subject role).isSome = true := by
  show (⟨subject, role⟩ : Binding) ∈ policy.bindings ↔ _
  rw [findBinding, List.find?_isSome]
  constructor
  · intro listed
    exact ⟨_, listed, by simp [Binding.isOf]⟩
  · rintro ⟨binding, listed, same⟩
    simp only [Binding.isOf, Bool.and_eq_true, beq_iff_eq] at same
    rw [← same.1, ← same.2]
    exact listed

/-- The permissions of a role that is found are its entries. -/
theorem perms_found {policy : Policy} {name : CString} {role : Role}
    (found : findRole policy name = some role) :
    policy.sets.perms name = {perm | perm ∈ role.perms} := by
  ext perm
  show (∃ other, findRole policy name = some other ∧ perm ∈ other.perms) ↔ perm ∈ role.perms
  rw [found]
  simp

/-- An entry is among the permissions of a role when it is found in it. -/
theorem mem_perms {role : Role} {action resource : CString} :
    (⟨action, resource⟩ : Perm) ∈ role.perms ↔
      role.perms.any (Perm.isOf action resource) = true := by
  rw [List.any_eq_true]
  constructor
  · intro listed
    exact ⟨_, listed, by simp [Perm.isOf]⟩
  · rintro ⟨perm, listed, same⟩
    simp only [Perm.isOf, Bool.and_eq_true, beq_iff_eq] at same
    rw [← same.1, ← same.2]
    exact listed

/-- What is found after a role was changed in place. -/
theorem findRole_updateRole (policy : Policy) (change : Role → Role)
    (named : ∀ role, (change role).name = role.name) (name other : CString) :
    findRole { policy with roles := updateRole name change policy.roles } other =
      if other = name then (findRole policy name).map change else findRole policy other := by
  unfold findRole updateRole
  dsimp only
  induction policy.roles with
  | nil => simp [updateFirst]
  | cons role rest ih =>
    by_cases here : Role.isNamed name role = true
    · have same : role.name = name := beq_iff_eq.mp here
      rw [updateFirst, if_pos here]
      by_cases asked : other = name
      · have changed : Role.isNamed other (change role) = true := by
          rw [Role.isNamed, named, asked]
          exact here
        rw [List.find?_cons_of_pos changed, if_pos asked, List.find?_cons_of_pos here,
          Option.map_some]
      · have apart : ¬ Role.isNamed other role = true := by
          intro also
          exact asked ((beq_iff_eq.mp also).symm.trans same)
        have changed : ¬ Role.isNamed other (change role) = true := by
          rw [Role.isNamed, named]
          exact apart
        rw [List.find?_cons_of_neg changed, if_neg asked, List.find?_cons_of_neg apart]
    · rw [updateFirst, if_neg here]
      by_cases asked : Role.isNamed other role = true
      · have different : other ≠ name := by
          rintro rfl
          exact here asked
        rw [List.find?_cons_of_pos asked, if_neg different, List.find?_cons_of_pos asked]
      · rw [List.find?_cons_of_neg asked, ih, List.find?_cons_of_neg here,
          List.find?_cons_of_neg asked]

/-- The sets after the entries of a role were changed. -/
theorem sets_updateRole (policy : Policy) {name : CString} {role : Role}
    (found : findRole policy name = some role) (perms : List Perm → List Perm) :
    Policy.sets { policy with
        roles := updateRole name (fun role => { role with perms := perms role.perms })
          policy.roles } =
      { policy.sets with
        perms := Function.update policy.sets.perms name {perm | perm ∈ perms role.perms} } := by
  have search := findRole_updateRole policy
    (fun role => { role with perms := perms role.perms }) (fun _ => rfl) name
  apply Rbac.ext
  · ext other
    show (findRole _ other).isSome = true ↔ (findRole policy other).isSome = true
    rw [search]
    by_cases asked : other = name
    · rw [if_pos asked, asked, found]
      simp
    · rw [if_neg asked]
  · funext other
    ext perm
    show (∃ held, findRole _ other = some held ∧ perm ∈ held.perms) ↔
      perm ∈ Function.update policy.sets.perms name {perm | perm ∈ perms role.perms} other
    rw [search]
    by_cases asked : other = name
    · rw [if_pos asked, asked, found, Function.update_self]
      simp
    · rw [if_neg asked, Function.update_of_ne asked]
      rfl
  · rfl

/-! ## Each change -/

/-- The sets after a role was appended. -/
theorem sets_appendRole {policy : Policy} {name : CString} (description : CString)
    (token : tokenOk name 64 = true) (absent : findRole policy name = none) :
    (appendRole policy name description).sets = policy.sets.addRole name := by
  have search (other : CString) : findRole (appendRole policy name description) other =
      (findRole policy other).or
        (if other = name then some ⟨name, snprintf 256 description, []⟩ else none) := by
    unfold findRole appendRole
    dsimp only
    rw [List.find?_append, snprintf_eq (tokenOk_fits token)]
    congr 1
    by_cases asked : other = name
    · rw [if_pos asked, asked]
      exact List.find?_cons_of_pos (beq_self_eq_true name)
    · rw [if_neg asked]
      exact List.find?_cons_of_neg (by simpa [Role.isNamed] using Ne.symm asked)
  apply Rbac.ext
  · ext other
    show (findRole _ other).isSome = true ↔ other = name ∨ (findRole policy other).isSome = true
    rw [search]
    by_cases asked : other = name
    · rw [if_pos asked, asked, absent]
      simp
    · rw [if_neg asked]
      simp [asked]
  · funext other
    ext perm
    show (∃ role, findRole _ other = some role ∧ perm ∈ role.perms) ↔
      ∃ role, findRole policy other = some role ∧ perm ∈ role.perms
    rw [search]
    by_cases asked : other = name
    · rw [if_pos asked, asked, absent]
      simp
    · rw [if_neg asked, Option.or_none]
  · rfl

/-- The sets after a role was removed with its bindings. -/
theorem sets_removeRole {policy : Policy} (sound : policy.Sound) (name : CString) :
    Policy.sets
        ⟨policy.roles.eraseP (Role.isNamed name),
          policy.bindings.filter fun binding => binding.role != name⟩ =
      policy.sets.deleteRole name := by
  have search (other : CString) :
      (policy.roles.eraseP (Role.isNamed name)).find? (Role.isNamed other) =
        if other = name then none else findRole policy other := by
    by_cases asked : other = name
    · rw [if_pos asked, asked, List.find?_eq_none]
      intro role kept named
      cases found : policy.roles.find? (Role.isNamed name) with
      | none =>
        rw [List.find?_eq_none] at found
        exact found role (List.mem_of_mem_eraseP kept) named
      | some first =>
        have matched : Role.isNamed name first = true := List.find?_some found
        have firstNamed : first.name = name := beq_iff_eq.mp matched
        have roleNamed : role.name = name := beq_iff_eq.mp named
        exact key_ne_of_mem_eraseP sound.names found kept (roleNamed.trans firstNamed.symm)
    · rw [if_neg asked]
      apply find?_eraseP
      intro role named
      have same : role.name = name := beq_iff_eq.mp named
      rw [Role.isNamed, same, beq_eq_false_iff_ne]
      exact Ne.symm asked
  apply Rbac.ext
  · ext other
    show ((policy.roles.eraseP (Role.isNamed name)).find? (Role.isNamed other)).isSome = true ↔
      (findRole policy other).isSome = true ∧ other ≠ name
    rw [search]
    by_cases asked : other = name <;> simp [asked]
  · funext other
    ext perm
    show (∃ role, (policy.roles.eraseP (Role.isNamed name)).find? (Role.isNamed other) = some role ∧
      perm ∈ role.perms) ↔ perm ∈ Function.update policy.sets.perms name ∅ other
    rw [search]
    by_cases asked : other = name
    · rw [if_pos asked, asked, Function.update_self]
      simp
    · rw [if_neg asked, Function.update_of_ne asked]
      rfl
  · ext entry
    show (⟨entry.1, entry.2⟩ : Binding) ∈
        policy.bindings.filter (fun binding => binding.role != name) ↔
      (⟨entry.1, entry.2⟩ : Binding) ∈ policy.bindings ∧ entry.2 ≠ name
    rw [List.mem_filter, bne_iff_ne]

/-- Erasing what is found by a check that only one element passes. -/
theorem mem_eraseP_only {α : Type} {list : List α} (distinct : list.Nodup) {matching : α → Bool}
    {item : α} (listed : item ∈ list) (only : ∀ other, matching other = true ↔ other = item)
    (other : α) : other ∈ list.eraseP matching ↔ other ∈ list ∧ other ≠ item := by
  have unique : ∀ first ∈ list, ∀ second ∈ list, matching first = true → matching second = true →
      first = second := by
    intro first _ second _ one two
    rw [(only first).mp one, (only second).mp two]
  rw [(find?_eraseP_of_unique distinct unique listed ((only item).mpr rfl)).2, List.mem_filter,
    Bool.not_eq_true', Bool.eq_false_iff, Ne, only]

/-- An entry has an action and a resource pattern when it is the entry of both. -/
theorem perm_isOf {action resource : CString} (perm : Perm) :
    Perm.isOf action resource perm = true ↔ perm = ⟨action, resource⟩ := by
  cases perm
  simp [Perm.isOf]

/-- A binding is of a subject and a role when it is the binding of both. -/
theorem binding_isOf {subject role : CString} (binding : Binding) :
    Binding.isOf subject role binding = true ↔ binding = ⟨subject, role⟩ := by
  cases binding
  simp [Binding.isOf]

/-- `role_add` does what the sets call for. -/
theorem roleAdd_sets (policy : Policy) (name : CString) (description : Option CString)
    (alloc : Bool) :
    ((roleAdd policy name description alloc).1.sets, (roleAdd policy name description alloc).2) =
      setsPerform policy.sets (.roleAdd name description alloc) := by
  unfold roleAdd setsPerform
  dsimp only
  simp only [mem_roles]
  cases token : tokenOk name 64 with
  | false => rfl
  | true =>
    cases free : freeTextOk (description.getD []) 256 with
    | false => rfl
    | true =>
      cases found : findRole policy name with
      | some role => simp
      | none =>
        cases alloc with
        | false => simp
        | true => simpa using sets_appendRole (description.getD []) token found

/-- `role_remove` does what the sets call for. -/
theorem roleRemove_sets {policy : Policy} (sound : policy.Sound) (name : CString) :
    ((roleRemove policy name).1.sets, (roleRemove policy name).2) =
      setsPerform policy.sets (.roleRemove name) := by
  unfold roleRemove setsPerform
  dsimp only
  simp only [mem_roles]
  cases found : findRole policy name with
  | none => simp
  | some role => simpa using sets_removeRole sound name

/-- `role_add_perm` does what the sets call for. -/
theorem roleAddPerm_sets {policy : Policy} (sound : policy.Sound) (role action : CString)
    (resource : Option CString) :
    ((roleAddPerm policy role action resource).1.sets,
        (roleAddPerm policy role action resource).2) =
      setsPerform policy.sets (.roleAddPerm role action resource) := by
  unfold roleAddPerm setsPerform
  dsimp only
  simp only [mem_roles]
  cases found : findRole policy role with
  | none => simp
  | some held =>
    have valid := sound.roles held (findRole_some found).1
    have size : (policy.sets.perms role).ncard = held.perms.length := by
      rw [perms_found found, ← List.toFinset_card_of_nodup valid.distinct, ← Set.ncard_coe_finset]
      congr 1
      ext perm
      simp
    have inside : (⟨action, resource.getD []⟩ : Perm) ∈ policy.sets.perms role ↔
        held.perms.any (Perm.isOf action (resource.getD [])) = true := by
      rw [perms_found found]
      exact mem_perms
    rw [size]
    simp only [inside]
    cases token : tokenOk action 64 with
    | false => simp
    | true =>
      cases free : freeTextOk (resource.getD []) 256 with
      | false => simp
      | true =>
        by_cases present : held.perms.any (Perm.isOf action (resource.getD [])) = true
        · simp [present]
        · by_cases full : 64 ≤ held.perms.length
          · simp [present, full]
          · have changed := sets_updateRole policy found fun perms =>
              perms ++ [⟨snprintf 64 action, snprintf 256 (resource.getD [])⟩]
            have added : {perm | perm ∈ held.perms ++
                [⟨snprintf 64 action, snprintf 256 (resource.getD [])⟩]} =
                  insert ⟨action, resource.getD []⟩ (policy.sets.perms role) := by
              rw [perms_found found, snprintf_eq (tokenOk_fits token),
                snprintf_eq (freeTextOk_fits free)]
              ext perm
              simp [or_comm]
            rw [added] at changed
            simpa [present, full, Rbac.addPerm] using changed

/-- `role_remove_perm` does what the sets call for. -/
theorem roleRemovePerm_sets {policy : Policy} (sound : policy.Sound) (role action : CString)
    (resource : Option CString) :
    ((roleRemovePerm policy role action resource).1.sets,
        (roleRemovePerm policy role action resource).2) =
      setsPerform policy.sets (.roleRemovePerm role action resource) := by
  unfold roleRemovePerm setsPerform
  dsimp only
  simp only [mem_roles]
  cases found : findRole policy role with
  | none => simp
  | some held =>
    have valid := sound.roles held (findRole_some found).1
    have inside : (⟨action, resource.getD []⟩ : Perm) ∈ policy.sets.perms role ↔
        held.perms.any (Perm.isOf action (resource.getD [])) = true := by
      rw [perms_found found]
      exact mem_perms
    simp only [inside]
    cases token : tokenOk action 64 with
    | false => simp
    | true =>
      cases free : freeTextOk (resource.getD []) 256 with
      | false => simp
      | true =>
        by_cases present : held.perms.any (Perm.isOf action (resource.getD [])) = true
        · have changed := sets_updateRole policy found fun perms =>
            perms.eraseP (Perm.isOf action (resource.getD []))
          have removed : {perm | perm ∈ held.perms.eraseP (Perm.isOf action (resource.getD []))} =
              policy.sets.perms role \ {⟨action, resource.getD []⟩} := by
            rw [perms_found found]
            ext perm
            exact mem_eraseP_only valid.distinct (mem_perms.mpr present) perm_isOf perm
          rw [removed] at changed
          simpa [present, Rbac.removePerm] using changed
        · simp [present]

/-- `grant` does what the sets call for. -/
theorem grant_sets (policy : Policy) (subject role : CString) (alloc : Bool) :
    ((grant policy subject role alloc).1.sets, (grant policy subject role alloc).2) =
      setsPerform policy.sets (.grant subject role alloc) := by
  unfold grant setsPerform
  dsimp only
  simp only [mem_roles, mem_assigned]
  cases owner : tokenOk subject 128 with
  | false => rfl
  | true =>
    cases token : tokenOk role 64 with
    | false => rfl
    | true =>
      cases found : findRole policy role with
      | none => simp
      | some held =>
        cases bound : findBinding policy subject role with
        | some binding => simp
        | none =>
          cases alloc with
          | false => simp
          | true =>
            have added : (appendBinding policy subject role).sets =
                policy.sets.assign subject role := by
              apply Rbac.ext
              · rfl
              · rfl
              · ext entry
                show (⟨entry.1, entry.2⟩ : Binding) ∈ policy.bindings ++ [_] ↔
                  entry = (subject, role) ∨ (⟨entry.1, entry.2⟩ : Binding) ∈ policy.bindings
                rw [List.mem_append, List.mem_singleton, snprintf_eq (tokenOk_fits owner),
                  snprintf_eq (tokenOk_fits token), Binding.mk.injEq, Prod.ext_iff, or_comm]
            simpa using added

/-- `revoke` does what the sets call for. -/
theorem revoke_sets {policy : Policy} (sound : policy.Sound) (subject role : CString) :
    ((revoke policy subject role).1.sets, (revoke policy subject role).2) =
      setsPerform policy.sets (.revoke subject role) := by
  unfold revoke setsPerform
  dsimp only
  have inside := @mem_assigned policy subject role
  simp only [inside]
  cases owner : tokenOk subject 128 with
  | false => rfl
  | true =>
    cases token : tokenOk role 64 with
    | false => rfl
    | true =>
      cases bound : findBinding policy subject role with
      | none => simp
      | some binding =>
        have listed : (⟨subject, role⟩ : Binding) ∈ policy.bindings := by
          apply mem_assigned.mpr
          rw [bound]
          rfl
        have removed : Policy.sets { policy with
            bindings := policy.bindings.eraseP (Binding.isOf subject role) } =
              policy.sets.deassign subject role := by
          apply Rbac.ext
          · rfl
          · rfl
          · ext entry
            show (⟨entry.1, entry.2⟩ : Binding) ∈
              policy.bindings.eraseP (Binding.isOf subject role) ↔
                (⟨entry.1, entry.2⟩ : Binding) ∈ policy.bindings ∧ entry ≠ (subject, role)
            rw [mem_eraseP_only sound.distinct listed binding_isOf, Ne, Binding.mk.injEq, Ne,
              Prod.ext_iff]
        simpa using removed

/-- Every change does what the sets call for. -/
theorem perform_sets {policy : Policy} (sound : policy.Sound) (action : Action) :
    ((perform policy action).1.sets, (perform policy action).2) =
      setsPerform policy.sets action := by
  cases action with
  | roleAdd name description alloc => exact roleAdd_sets policy name description alloc
  | roleRemove name => exact roleRemove_sets sound name
  | roleAddPerm role action resource => exact roleAddPerm_sets sound role action resource
  | roleRemovePerm role action resource => exact roleRemovePerm_sets sound role action resource
  | grant subject role alloc => exact grant_sets policy subject role alloc
  | revoke subject role => exact revoke_sets sound subject role

/-! ## Checks and runs -/

/-- The sets after a change. -/
noncomputable def setsStep (sets : PolicySets) (action : Action) : PolicySets :=
  (setsPerform sets action).1

/-- The policy without roles has empty sets. -/
theorem empty_sets : Policy.empty.sets = Rbac.empty := by
  apply Rbac.ext
  · ext name
    simp [Policy.sets, Policy.empty, Rbac.empty, findRole]
  · funext name
    ext perm
    simp [Policy.sets, Policy.empty, Rbac.empty, findRole]
  · ext entry
    simp [Policy.sets, Policy.empty, Rbac.empty]

/-- The sets allow what the policy allows. -/
theorem allowed_iff {policy : Policy} (names : (policy.roles.map Role.name).Nodup)
    (subject action resource : CString) :
    policy.sets.Allowed coversRequest subject (action, resource) ↔
      policy.Allows subject action resource := by
  constructor
  · rintro ⟨name, bound, perm, ⟨role, found, member⟩, covered⟩
    obtain ⟨held, named⟩ := findRole_some found
    exact ⟨_, bound, rfl, role, held, named, perm, member, covered⟩
  · rintro ⟨binding, listed, rfl, role, held, named, perm, member, covered⟩
    refine ⟨binding.role, listed, perm, ⟨role, ?_, member⟩, covered⟩
    rw [← named]
    exact findRole_eq names held

/-- A check asks whether the sets allow the request. -/
theorem opsCheck_sets {policy : Policy} (names : (policy.roles.map Role.name).Nodup)
    (subject action : CString) (resource : Option CString) :
    opsCheck policy subject action resource = 0 ↔
      (subject ≠ [] ∧ action ≠ []) ∧
        policy.sets.Allowed coversRequest subject (action, resource.getD []) := by
  rw [allowed_iff names]
  by_cases asked : subject ≠ [] ∧ action ≠ []
  · rw [opsCheck_iff names asked, and_iff_right asked]
  · have refused : opsCheck policy subject action resource = einval := by
      rw [opsCheck, if_pos (by tauto)]
    rw [refused]
    constructor
    · intro zero
      cases zero
    · exact fun both => absurd both.1 asked

/-- In every run from the empty policy, the lists stand for the sets that the changes make of the
empty ones, the next call returns what the sets call for, and a check asks the sets. -/
theorem policy_refines_sets (actions : List Action) :
    (run policyStep .empty actions).sets = run setsStep Rbac.empty actions ∧
    (∀ action, (perform (run policyStep .empty actions) action).2 =
      (setsPerform (run setsStep Rbac.empty actions) action).2) ∧
    ∀ subject action resource,
      opsCheck (run policyStep .empty actions) subject action resource = 0 ↔
        (subject ≠ [] ∧ action ≠ []) ∧
          (run setsStep Rbac.empty actions).Allowed coversRequest subject
            (action, resource.getD []) := by
  have sets : (run policyStep .empty actions).sets = run setsStep Rbac.empty actions := by
    induction actions using List.reverseRecOn with
    | nil => exact empty_sets
    | append_singleton front action ih =>
      rw [run_append, run_append, ← ih]
      show (policyStep (run policyStep .empty front) action).sets =
        (setsPerform (run policyStep .empty front).sets action).1
      rw [← perform_sets (reachable_valid front).sound, perform_policy]
  rw [← sets]
  have valid := reachable_valid actions
  refine ⟨rfl, fun action => ?_, opsCheck_sets valid.names⟩
  rw [← perform_sets valid.sound]

end HwrunOs.Permission
