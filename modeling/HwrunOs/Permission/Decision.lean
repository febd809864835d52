import HwrunOs.Permission.Load
import Mathlib.Data.List.Infix

/-!
# What a decision means

A request is allowed when a binding of its subject names a role with an entry that covers it.
`ops_check` decides this in every reachable policy, so what adds to the policy only adds to the
allowed requests, and what removes only takes from them.
-/

namespace HwrunOs.Permission

open HwrunOs.Bytes HwrunOs.Runs HwrunOs.Lookup

/-! ## Patterns -/

/-- The texts that one byte of a pattern stands for: any text for a star, any byte for a
question mark, itself for every other byte. -/
def Covers (byte : UInt8) (piece : CString) : Prop :=
  byte = 42 ∨ (byte = 63 ∧ piece.length = 1) ∨ piece = [byte]

/-- A text that a pattern covers piece by piece. -/
def GlobMatches (pattern text : CString) : Prop :=
  ∃ pieces : List CString, List.Forall₂ Covers pattern pieces ∧ pieces.flatten = text

/-- The empty pattern matches the empty text. -/
theorem globMatches_nil {text : CString} : GlobMatches [] text ↔ text = [] := by
  constructor
  · rintro ⟨pieces, covered, rfl⟩
    rw [List.forall₂_nil_left_iff.mp covered]
    rfl
  · rintro rfl
    exact ⟨[], .nil, rfl⟩

/-- A pattern matches what its first byte and the rest match one after the other. -/
theorem globMatches_cons {byte : UInt8} {pattern text : CString} :
    GlobMatches (byte :: pattern) text ↔
      ∃ piece rest, Covers byte piece ∧ GlobMatches pattern rest ∧ piece ++ rest = text := by
  constructor
  · rintro ⟨pieces, covered, rfl⟩
    obtain ⟨piece, others, first, later, rfl⟩ := List.forall₂_cons_left_iff.mp covered
    exact ⟨piece, others.flatten, first, ⟨others, later, rfl⟩, rfl⟩
  · rintro ⟨piece, rest, first, ⟨others, later, rfl⟩, rfl⟩
    exact ⟨piece :: others, .cons first later, rfl⟩

/-- `glob_match` decides whether a pattern covers a text. -/
theorem globMatch_iff (pattern text : CString) :
    globMatch pattern text = true ↔ GlobMatches pattern text := by
  induction pattern generalizing text with
  | nil => rw [globMatches_nil, globMatch, List.isEmpty_iff]
  | cons byte pattern ih =>
    rw [globMatches_cons]
    by_cases star : byte = 42
    · rw [star, globMatch_star, List.any_eq_true]
      constructor
      · rintro ⟨rest, inside, matched⟩
        obtain ⟨piece, whole⟩ := (List.mem_tails _ _).mp inside
        exact ⟨piece, rest, .inl rfl, (ih rest).mp matched, whole⟩
      · rintro ⟨piece, rest, -, matched, whole⟩
        exact ⟨rest, (List.mem_tails _ _).mpr ⟨piece, whole⟩, (ih rest).mpr matched⟩
    · cases text with
      | nil =>
        rw [globMatch_end star]
        constructor
        · intro none
          cases none
        · rintro ⟨piece, rest, covered, -, whole⟩
          obtain ⟨rfl, -⟩ := List.append_eq_nil_iff.mp whole
          rcases covered with same | ⟨-, one⟩ | one
          · exact absurd same star
          · cases one
          · cases one
      | cons first others =>
        rw [globMatch_cons star, Bool.and_eq_true, Bool.or_eq_true, beq_iff_eq, beq_iff_eq, ih]
        constructor
        · rintro ⟨wild | same, matched⟩
          · exact ⟨[first], others, .inr (.inl ⟨wild, rfl⟩), matched, rfl⟩
          · exact ⟨[first], others, .inr (.inr (by rw [same])), matched, rfl⟩
        · rintro ⟨piece, rest, covered, matched, whole⟩
          rcases covered with same | ⟨wild, one⟩ | one
          · exact absurd same star
          · obtain ⟨only, rfl⟩ := List.length_eq_one_iff.mp one
            obtain ⟨-, rfl⟩ := List.cons.inj whole
            exact ⟨.inl wild, matched⟩
          · rw [one] at whole
            obtain ⟨same, rfl⟩ := List.cons.inj whole
            exact ⟨.inr same, matched⟩

/-! ## Allowed requests -/

/-- An entry covers an action on a resource. -/
def Perm.Covers (perm : Perm) (action resource : CString) : Prop :=
  GlobMatches perm.action action ∧ (perm.resource = [] ∨ GlobMatches perm.resource resource)

/-- A binding of the subject names a role with an entry that covers the request. -/
def Policy.Allows (policy : Policy) (subject action resource : CString) : Prop :=
  ∃ binding ∈ policy.bindings, binding.subject = subject ∧
    ∃ role ∈ policy.roles, role.name = binding.role ∧ ∃ perm ∈ role.perms,
      perm.Covers action resource

/-- An entry allows what it covers. -/
theorem Perm.allows_iff (perm : Perm) (action resource : CString) :
    perm.allows action resource = true ↔ perm.Covers action resource := by
  simp only [Perm.allows, Perm.Covers, Bool.and_eq_true, Bool.or_eq_true, List.isEmpty_iff,
    globMatch_iff]

/-- The only role of a name is the one found by it. -/
theorem findRole_eq {policy : Policy} (names : (policy.roles.map Role.name).Nodup) {role : Role}
    (listed : role ∈ policy.roles) : findRole policy role.name = some role := by
  cases search : findRole policy role.name with
  | none =>
    have absent : (findRole policy role.name).isSome = false := by rw [search]; rfl
    exact absurd (List.mem_map_of_mem listed) (findRole_none.mp absent)
  | some found =>
    obtain ⟨member, same⟩ := findRole_some search
    rw [List.inj_on_of_nodup_map names member listed same]

/-- With unique names `ops_check` decides every request that names a subject and an action. -/
theorem opsCheck_iff {policy : Policy} (names : (policy.roles.map Role.name).Nodup)
    {subject action : CString} (asked : subject ≠ [] ∧ action ≠ []) (resource : Option CString) :
    opsCheck policy subject action resource = 0 ↔
      policy.Allows subject action (resource.getD []) := by
  have decided : (policy.bindings.any fun binding =>
      binding.subject == subject && ((findRole policy binding.role).any fun role =>
        role.perms.any (Perm.allows action (resource.getD [])))) = true ↔
      policy.Allows subject action (resource.getD []) := by
    simp only [List.any_eq_true, Bool.and_eq_true, beq_iff_eq, Option.any_eq_true]
    constructor
    · rintro ⟨binding, listed, owner, role, search, perm, member, allowed⟩
      obtain ⟨held, named⟩ := findRole_some search
      exact ⟨binding, listed, owner, role, held, named, perm, member,
        (perm.allows_iff _ _).mp allowed⟩
    · rintro ⟨binding, listed, owner, role, held, named, perm, member, covered⟩
      exact ⟨binding, listed, owner, role, named ▸ findRole_eq names held, perm, member,
        (perm.allows_iff _ _).mpr covered⟩
  rw [← decided, opsCheck, if_neg (by simp [asked])]
  split
  · rename_i allowed
    simp [allowed]
  · rename_i denied
    simp [denied, show ¬ eacces = 0 by decide]

/-- A request without a subject or an action is refused in every policy. -/
theorem opsCheck_refused (policy : Policy) {subject action : CString}
    (empty : ¬ (subject ≠ [] ∧ action ≠ [])) (resource : Option CString) :
    opsCheck policy subject action resource = einval := by
  rw [opsCheck, if_pos (by tauto)]

/-! ## More and less -/

/-- Every binding and every entry of a policy is in another one, under the same role. -/
structure Policy.Within (policy other : Policy) : Prop where
  /-- The bindings are there. -/
  bindings : policy.bindings ⊆ other.bindings
  /-- The roles are there with their entries. -/
  roles : ∀ role ∈ policy.roles, ∃ larger ∈ other.roles, larger.name = role.name ∧
    role.perms ⊆ larger.perms

/-- A policy is within itself. -/
theorem Policy.Within.refl (policy : Policy) : policy.Within policy :=
  ⟨List.Subset.refl _, fun role listed => ⟨role, listed, rfl, List.Subset.refl _⟩⟩

/-- A larger policy allows at least as much. -/
theorem Policy.Allows.mono {policy other : Policy} (within : policy.Within other)
    {subject action resource : CString} (allowed : policy.Allows subject action resource) :
    other.Allows subject action resource := by
  obtain ⟨binding, listed, owner, role, held, named, perm, member, covered⟩ := allowed
  obtain ⟨larger, there, same, entries⟩ := within.roles role held
  exact ⟨binding, within.bindings listed, owner, larger, there, same.trans named, perm,
    entries member, covered⟩

/-- A larger policy with unique names keeps every request that was allowed. -/
theorem opsCheck_mono {policy other : Policy} (names : (policy.roles.map Role.name).Nodup)
    (otherNames : (other.roles.map Role.name).Nodup) (within : policy.Within other)
    {subject action : CString} {resource : Option CString}
    (allowed : opsCheck policy subject action resource = 0) :
    opsCheck other subject action resource = 0 := by
  by_cases asked : subject ≠ [] ∧ action ≠ []
  · rw [opsCheck_iff otherNames asked]
    exact ((opsCheck_iff names asked resource).mp allowed).mono within
  · rw [opsCheck_refused _ asked] at allowed
    exact absurd allowed (by decide)

/-- Adding a role keeps what is there. -/
theorem roleAdd_within (policy : Policy) (name : CString) (description : Option CString)
    (alloc : Bool) : policy.Within (roleAdd policy name description alloc).1 := by
  unfold roleAdd
  split_ifs <;> try exact Policy.Within.refl policy
  refine ⟨List.Subset.refl _, ?_⟩
  intro role listed
  exact ⟨role, List.mem_append_left _ listed, rfl, List.Subset.refl _⟩

/-- A binding more keeps what is there. -/
theorem grant_within (policy : Policy) (subject role : CString) (alloc : Bool) :
    policy.Within (grant policy subject role alloc).1 := by
  rcases grant_cases policy subject role alloc with ⟨same, -⟩ | ⟨-, -, after⟩
  · rw [same]
    exact Policy.Within.refl policy
  · rw [after]
    refine ⟨List.subset_append_left _ _, ?_⟩
    intro listed member
    exact ⟨listed, member, rfl, List.Subset.refl _⟩

/-- Growing the entries of one role in place keeps what is there. -/
theorem updateFirst_within {matching : Role → Bool} {change : Role → Role}
    (named : ∀ role, (change role).name = role.name)
    (grown : ∀ role, role.perms ⊆ (change role).perms) (roles : List Role) :
    ∀ role ∈ roles, ∃ larger ∈ updateFirst matching change roles, larger.name = role.name ∧
      role.perms ⊆ larger.perms := by
  induction roles with
  | nil =>
    intro role listed
    cases listed
  | cons first rest ih =>
    intro role listed
    rw [updateFirst]
    split
    · rcases List.mem_cons.mp listed with rfl | later
      · exact ⟨change role, List.mem_cons_self, named role, grown role⟩
      · exact ⟨role, List.mem_cons_of_mem _ later, rfl, List.Subset.refl _⟩
    · rcases List.mem_cons.mp listed with rfl | later
      · exact ⟨role, List.mem_cons_self, rfl, List.Subset.refl _⟩
      · obtain ⟨larger, there, same, entries⟩ := ih role later
        exact ⟨larger, List.mem_cons_of_mem _ there, same, entries⟩

/-- Adding an entry keeps what is there. -/
theorem roleAddPerm_within (policy : Policy) (role action : CString)
    (resource : Option CString) : policy.Within (roleAddPerm policy role action resource).1 := by
  unfold roleAddPerm
  split
  · exact Policy.Within.refl policy
  dsimp only
  split_ifs <;> try exact Policy.Within.refl policy
  refine ⟨List.Subset.refl _, ?_⟩
  apply updateFirst_within
  · intro role
    rfl
  · intro role
    exact List.subset_append_left _ _

/-- What is left after removing a role was there. -/
theorem roleRemove_within (policy : Policy) (name : CString) :
    (roleRemove policy name).1.Within policy := by
  unfold roleRemove
  split
  · exact Policy.Within.refl policy
  refine ⟨List.filter_sublist.subset, ?_⟩
  intro role listed
  exact ⟨role, List.mem_of_mem_eraseP listed, rfl, List.Subset.refl _⟩

/-- What is left after removing an entry was there. -/
theorem roleRemovePerm_within (policy : Policy) (role action : CString)
    (resource : Option CString) :
    (roleRemovePerm policy role action resource).1.Within policy := by
  unfold roleRemovePerm
  split
  · exact Policy.Within.refl policy
  dsimp only
  split_ifs
  · exact Policy.Within.refl policy
  · exact Policy.Within.refl policy
  · refine ⟨List.Subset.refl _, ?_⟩
    intro changed listed
    rcases mem_updateFirst listed with old | ⟨first, search, rfl⟩
    · exact ⟨changed, old, rfl, List.Subset.refl _⟩
    · exact ⟨first, List.mem_of_find?_eq_some search, rfl, List.eraseP_sublist.subset⟩
  · exact Policy.Within.refl policy

/-- What is left after removing a binding was there. -/
theorem revoke_within (policy : Policy) (subject role : CString) :
    (revoke policy subject role).1.Within policy := by
  unfold revoke
  split_ifs <;> try exact Policy.Within.refl policy
  refine ⟨List.eraseP_sublist.subset, ?_⟩
  intro listed member
  exact ⟨listed, member, rfl, List.Subset.refl _⟩

/-! ## Removed roles -/

/-- An operation that binds a subject to a role: a successful grant of it, or a load of a file
with a binding line for it. -/
def GivesRole (name : CString) (policy : Policy) : Operation → Prop
  | .change (.grant subject role alloc) =>
    role = name ∧ (grant policy subject role alloc).2 = 0
  | .load (some file) _ =>
    ∃ line ∈ loadLines file, ∃ subject, lineBinding line = some ⟨subject, name⟩
  | _ => False

/-- Operations that do not bind a subject to a role leave it without subjects. -/
theorem operate_unheld {policy : Policy} {operation : Operation} {name : CString}
    (quiet : ¬ GivesRole name policy operation)
    (unheld : ∀ binding ∈ policy.bindings, binding.role ≠ name) :
    ∀ binding ∈ (operate policy operation).bindings, binding.role ≠ name := by
  rintro binding found rfl
  cases operation with
  | change action =>
    rcases policyStep_bindings found with old | ⟨granted, -⟩
    · exact unheld binding old rfl
    · cases action with
      | grant subject role alloc =>
        obtain ⟨done, rfl⟩ := granted
        exact quiet ⟨rfl, done⟩
      | _ => exact granted
  | load file alloc =>
    cases file with
    | none => exact unheld binding found rfl
    | some file =>
      obtain ⟨line, listed, named⟩ := (stateLoad_spec file alloc).2 binding found
      exact quiet ⟨line, listed, binding.subject, named⟩
  | close => cases found

/-- A removed role is bound to no subject. -/
theorem roleRemove_unheld {policy : Policy} (sound : policy.Sound) (name : CString) :
    ∀ binding ∈ (roleRemove policy name).1.bindings, binding.role ≠ name := by
  rintro binding found rfl
  unfold roleRemove at found
  split at found
  · rename_i missing
    have listed := sound.bound binding found
    rw [findRole_isNone.mpr listed] at missing
    cases missing
  · have other := (List.mem_filter.mp found).2
    simp at other

/-- After its removal a role is held by no subject, whatever is done that does not bind a
subject to it. -/
theorem removed_role_unheld (policy : Policy) (sound : policy.Sound) (name : CString)
    (later : List Operation)
    (quiet : AllSteps operate (fun policy operation => ¬ GivesRole name policy operation)
      (roleRemove policy name).1 later) :
    ∀ binding ∈ (run operate (roleRemove policy name).1 later).bindings, binding.role ≠ name :=
  (@allStates_of_steps _ _ _ (fun policy => ∀ binding ∈ policy.bindings, binding.role ≠ name) _
    (fun _ _ unheld silent => operate_unheld silent unheld) _ (roleRemove_unheld sound name) _
    quiet).last

/-! ## Decisions of reachable policies -/

/-- The changes that add: `role_add`, `role_add_perm` and `grant`. -/
def Action.adds : Action → Bool
  | .roleAdd .. | .roleAddPerm .. | .grant .. => true
  | .roleRemove .. | .roleRemovePerm .. | .revoke .. => false

/-- What a change that adds keeps. -/
theorem policyStep_grows (policy : Policy) {action : Action} (adds : action.adds = true) :
    policy.Within (policyStep policy action) := by
  cases action with
  | roleAdd name description alloc => exact roleAdd_within policy name description alloc
  | roleAddPerm role action resource => exact roleAddPerm_within policy role action resource
  | grant subject role alloc => exact grant_within policy subject role alloc
  | roleRemove name => cases adds
  | roleRemovePerm role action resource => cases adds
  | revoke subject role => cases adds

/-- What a change that removes leaves. -/
theorem policyStep_shrinks (policy : Policy) {action : Action} (removes : action.adds = false) :
    (policyStep policy action).Within policy := by
  cases action with
  | roleAdd name description alloc => cases removes
  | roleAddPerm role action resource => cases removes
  | grant subject role alloc => cases removes
  | roleRemove name => exact roleRemove_within policy name
  | roleRemovePerm role action resource => exact roleRemovePerm_within policy role action resource
  | revoke subject role => exact revoke_within policy subject role

/-- In every reachable policy `ops_check` allows a request with an action exactly when a binding
of its subject names a role with an entry that covers it; what adds turns no allowed request
into a denied one, what removes turns no denied request into an allowed one, and a removed role
is held by no subject until it is given again. -/
theorem reachable_decisions (before : List Operation) :
    (∀ (subject action : CString) (resource : Option CString), action ≠ [] →
      (opsCheck (policyAfter before) subject action resource = 0 ↔
        (policyAfter before).Allows subject action (resource.getD []))) ∧
    (∀ (change : Action) (subject action : CString) (resource : Option CString),
      change.adds = true → opsCheck (policyAfter before) subject action resource = 0 →
        opsCheck (policyStep (policyAfter before) change) subject action resource = 0) ∧
    (∀ (change : Action) (subject action : CString) (resource : Option CString),
      change.adds = false →
        opsCheck (policyStep (policyAfter before) change) subject action resource = 0 →
          opsCheck (policyAfter before) subject action resource = 0) ∧
    (∀ (name : CString) (later : List Operation),
      AllSteps operate (fun policy operation => ¬ GivesRole name policy operation)
        (roleRemove (policyAfter before) name).1 later →
      ∀ binding ∈ (run operate (roleRemove (policyAfter before) name).1 later).bindings,
        binding.role ≠ name) := by
  have sound := policyAfter_sound before
  have changed (change : Action) := policyStep_sound _ change sound
  refine ⟨?_, ?_, ?_, fun name later => removed_role_unheld _ sound name later⟩
  · intro subject action resource named
    by_cases empty : subject = []
    · rw [opsCheck_refused _ (fun asked => asked.1 empty)]
      constructor
      · intro zero
        exact absurd zero (by decide)
      · rintro ⟨binding, listed, owner, -⟩
        exact absurd (owner.trans empty) (policyAfter_subjects before binding listed).filled
    · exact opsCheck_iff sound.names ⟨empty, named⟩ resource
  · intro change subject action resource adds allowed
    exact opsCheck_mono sound.names (changed change).names
      (policyStep_grows (policyAfter before) adds) allowed
  · intro change subject action resource removes allowed
    exact opsCheck_mono (changed change).names sound.names
      (policyStep_shrinks (policyAfter before) removes) allowed

/-- A role whose entry covers every action, with one subject. -/
def starRole : List Operation :=
  [.change (.roleAdd (lit "admin") none true), .change (.roleAddPerm (lit "admin") (lit "*") none),
    .change (.grant (lit "alice") (lit "admin") true)]

/-- A star covers the empty action, and a request for it is refused. -/
theorem empty_action_refused :
    ¬ ∀ (before : List Operation) (subject action : CString) (resource : Option CString),
      opsCheck (policyAfter before) subject action resource = 0 ↔
        (policyAfter before).Allows subject action (resource.getD []) := by
  intro always
  have shape : policyAfter starRole =
      ⟨[⟨lit "admin", [], [⟨lit "*", []⟩]⟩], [⟨lit "alice", lit "admin"⟩]⟩ := by decide +kernel
  have matched : GlobMatches (lit "*") [] := (globMatch_iff _ _).mp (by decide)
  have allowed : (policyAfter starRole).Allows (lit "alice") [] [] := by
    rw [shape]
    exact ⟨_, List.mem_cons_self, rfl, _, List.mem_cons_self, rfl, _, List.mem_cons_self, matched,
      .inl rfl⟩
  have zero := (always starRole (lit "alice") [] none).mpr allowed
  rw [opsCheck_refused _ (by simp)] at zero
  exact absurd zero (by decide)

end HwrunOs.Permission
