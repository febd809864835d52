import HwrunOs.Permission.StateFile

/-!
# Decisions across a restart

Reading the state file of a valid policy whose resource patterns neither begin nor end with a
blank returns the policy itself up to its descriptions, so every decision is kept. A pattern
with a blank at an end is read back without it: one that is all blank is read back empty, and
then allows any resource.
-/

namespace HwrunOs.Permission

open HwrunOs.Bytes HwrunOs.Runs HwrunOs.Lookup

/-! ## What is read -/

/-- An entry as it is read back: the blanks at the ends of its resource pattern are gone. -/
def Perm.reloaded (perm : Perm) : Perm := { perm with resource := trimWs perm.resource }

/-- Add an entry that is not there yet. -/
def addNew (perms : List Perm) (perm : Perm) : List Perm :=
  if perm ∈ perms then perms else perms ++ [perm]

/-- A role as it is read back, each entry once. -/
def Role.reloaded (role : Role) : Role where
  name := role.name
  description := trimWs role.description
  perms := (role.perms.map Perm.reloaded).foldl addNew []

/-- A role after the first pass. -/
def Role.bare (role : Role) : Role := { role.reloaded with perms := [] }

/-- A policy as it is read back. -/
def Policy.reloaded (policy : Policy) : Policy :=
  { policy with roles := policy.roles.map Role.reloaded }

/-- An entry of a set is allowed by a list that each was added to. -/
theorem any_addNew (perms added : List Perm) (allowed : Perm → Bool) :
    (added.foldl addNew perms).any allowed = (perms.any allowed || added.any allowed) := by
  induction added generalizing perms with
  | nil => simp
  | cons perm rest ih =>
    rw [List.foldl_cons, ih, List.any_cons, ← Bool.or_assoc]
    congr 1
    unfold addNew
    split
    · rename_i member
      cases decided : allowed perm with
      | false => simp
      | true => simp [List.any_eq_true.mpr ⟨perm, member, decided⟩]
    · simp

/-- The first pass reads the roles without their entries. -/
theorem readRoles (roles before : List Role) (bindings : List Binding)
    (valid : ∀ role ∈ roles, role.Valid) (names : (roles.map Role.name).Nodup)
    (fresh : ∀ role ∈ roles, role.name ∉ before.map Role.name) :
    (roles.map readRole).foldl readRoleLine (⟨before, bindings⟩, 0) =
      (⟨before ++ roles.map Role.bare, bindings⟩, 0) := by
  induction roles generalizing before with
  | nil => simp
  | cons role rest ih =>
    have role_ := valid role List.mem_cons_self
    obtain ⟨other, names⟩ := List.nodup_cons.mp names
    have absent : (findRole ⟨before, bindings⟩ role.name).isSome = false :=
      findRole_none.mpr (fresh role List.mem_cons_self)
    have added : readRoleLine (⟨before, bindings⟩, 0) (readRole role) =
        (⟨before ++ [role.bare], bindings⟩, 0) := by
      have description := (trimWs_free role_.description).1
      simp only [readRoleLine, stateApplyLine_role _ role_, absent, Bool.false_eq_true, if_false,
        appendRole, snprintf_eq (tokenOk_fits role_.name), description]
      rfl
    have fresh' : ∀ later ∈ rest, later.name ∉ (before ++ [role.bare]).map Role.name := by
      intro later member
      have old := fresh later (List.mem_cons_of_mem _ member)
      have new : later.name ≠ role.name := fun same =>
        other (same ▸ List.mem_map_of_mem member)
      simpa [Role.bare, Role.reloaded] using ⟨by simpa using old, new⟩
    have valid' := fun later member => valid later (List.mem_cons_of_mem role member)
    rw [List.map_cons, List.foldl_cons, added, ih _ valid' names fresh']
    simp

/-- The line of an entry adds it to its role, unless the role has it. -/
theorem readPerm_line (front back : List Role) (role : Role) {perm : Perm}
    (bindings : List Binding) (named : tokenOk role.name 64 = true)
    (first : role.name ∉ front.map Role.name) (valid : perm.Valid)
    (room : role.perms.length < 64) :
    readOtherLine ⟨front ++ role :: back, bindings⟩ (readPerm role.name perm) =
      ⟨front ++ { role with perms := addNew role.perms perm.reloaded } :: back, bindings⟩ := by
  have resource := trimWs_free valid.resource
  have skipped : ∀ other ∈ front, Role.isNamed role.name other = false := by
    intro other member
    simp only [Role.isNamed, beq_eq_false_iff_ne, ne_eq]
    intro same
    exact first (List.mem_map.mpr ⟨other, member, same⟩)
  have matched : Role.isNamed role.name role = true := by simp [Role.isNamed]
  have found : findRole ⟨front ++ role :: back, bindings⟩ role.name = some role := by
    rw [findRole, find?_append_absent skipped, List.find?_cons_of_pos matched]
  have present : role.perms.any (Perm.isOf perm.action (trimWs perm.resource)) =
      decide (perm.reloaded ∈ role.perms) := by
    rw [Bool.eq_iff_iff, List.any_eq_true, decide_eq_true_iff]
    constructor
    · rintro ⟨other, member, same⟩
      simp only [Perm.isOf, Bool.and_eq_true, beq_iff_eq] at same
      have whole : other = perm.reloaded := by
        cases other
        simpa [Perm.reloaded] using same
      exact whole ▸ member
    · intro member
      exact ⟨_, member, by simp [Perm.isOf, Perm.reloaded]⟩
  have full : ¬ 64 ≤ role.perms.length := by omega
  rw [readOtherLine, stateApplyLine_perm _ named valid (by simp), roleAddPerm, found]
  simp only [Option.getD_some, valid.action, resource.2, present, decide_eq_true_eq, if_neg full,
    snprintf_eq (tokenOk_fits valid.action), resource.1, addNew]
  by_cases member : perm.reloaded ∈ role.perms
  · simp [member]
  · simp only [member, Bool.not_true, Bool.false_eq_true, if_false, updateRole,
      updateFirst_append skipped, updateFirst, matched, if_true]
    rfl

/-- Adding an entry adds at most one. -/
theorem addNew_length (perms : List Perm) (perm : Perm) :
    (addNew perms perm).length ≤ perms.length + 1 := by
  unfold addNew
  split <;> simp

/-- The lines of the entries of one role add the entries to it. -/
theorem readPerms (front back : List Role) (role : Role) (perms : List Perm)
    (bindings : List Binding) (named : tokenOk role.name 64 = true)
    (first : role.name ∉ front.map Role.name) (valid : ∀ perm ∈ perms, perm.Valid)
    (few : role.perms.length + perms.length ≤ 64) :
    (perms.map (readPerm role.name)).foldl readOtherLine ⟨front ++ role :: back, bindings⟩ =
      ⟨front ++ { role with perms := (perms.map Perm.reloaded).foldl addNew role.perms } :: back,
        bindings⟩ := by
  induction perms generalizing role with
  | nil => rfl
  | cons perm rest ih =>
    rw [List.length_cons] at few
    have added := readPerm_line front back role bindings named first
      (valid perm List.mem_cons_self) (by omega)
    have longer := addNew_length role.perms perm.reloaded
    have step := ih { role with perms := addNew role.perms perm.reloaded } named first
      (fun later member => valid later (List.mem_cons_of_mem _ member)) (by dsimp only; omega)
    rw [List.map_cons, List.foldl_cons, added]
    exact step

/-- The lines of all entries complete the roles. -/
theorem readAllPerms (roles before : List Role) (bindings : List Binding)
    (valid : ∀ role ∈ roles, role.Valid) (names : (roles.map Role.name).Nodup)
    (fresh : ∀ role ∈ roles, role.name ∉ before.map Role.name) :
    (roles.flatMap fun role => role.perms.map (readPerm role.name)).foldl readOtherLine
        ⟨before ++ roles.map Role.bare, bindings⟩ =
      ⟨before ++ roles.map Role.reloaded, bindings⟩ := by
  induction roles generalizing before with
  | nil => rfl
  | cons role rest ih =>
    have role_ := valid role List.mem_cons_self
    obtain ⟨other, names⟩ := List.nodup_cons.mp names
    have completed : (role.perms.map (readPerm role.name)).foldl readOtherLine
        ⟨before ++ role.bare :: rest.map Role.bare, bindings⟩ =
          ⟨before ++ role.reloaded :: rest.map Role.bare, bindings⟩ :=
      readPerms before (rest.map Role.bare) role.bare role.perms bindings role_.name
        (fresh role List.mem_cons_self) role_.perms (by simpa [Role.bare] using role_.few)
    have fresh' : ∀ later ∈ rest, later.name ∉ (before ++ [role.reloaded]).map Role.name := by
      intro later member
      have old := fresh later (List.mem_cons_of_mem _ member)
      have new : later.name ≠ role.name := fun same =>
        other (same ▸ List.mem_map_of_mem member)
      simpa [Role.reloaded] using ⟨by simpa using old, new⟩
    have step := ih (before ++ [role.reloaded])
      (fun later member => valid later (List.mem_cons_of_mem _ member)) names fresh'
    rw [List.flatMap_cons, List.foldl_append, List.map_cons, completed]
    simpa using step

/-- The lines of the bindings add the bindings. -/
theorem readGrants (roles : List Role) (bindings before : List Binding)
    (named : ∀ role ∈ roles, tokenOk role.name 64 = true)
    (subjects : ∀ binding ∈ bindings, SubjectOk binding.subject)
    (bound : ∀ binding ∈ bindings, binding.role ∈ roles.map Role.name)
    (distinct : (before ++ bindings).Nodup) :
    (bindings.map grantLine).foldl readOtherLine ⟨roles, before⟩ = ⟨roles, before ++ bindings⟩ := by
  induction bindings generalizing before with
  | nil => simp
  | cons binding rest ih =>
    have fresh : binding ∉ before := by
      intro member
      exact (List.nodup_append.mp distinct).2.2 binding member binding List.mem_cons_self rfl
    have found := bound binding List.mem_cons_self
    obtain ⟨role, member, same⟩ := List.mem_map.mp found
    have token : tokenOk binding.role 64 = true := same ▸ named role member
    have added : readOtherLine ⟨roles, before⟩ (grantLine binding) =
        ⟨roles, before ++ [binding]⟩ :=
      stateApplyLine_grant _ (subjects binding List.mem_cons_self) token found fresh
    rw [List.map_cons, List.foldl_cons, added,
      ih _ (fun later inside => subjects later (List.mem_cons_of_mem _ inside))
        (fun later inside => bound later (List.mem_cons_of_mem _ inside)) (by simpa using distinct)]
    simp

/-- A policy is read back as its reloaded policy, without an error. -/
theorem stateRead_stateText {policy : Policy} (writable : policy.Writable) :
    stateRead (stateText policy) = (policy.reloaded, 0) := by
  have sound := writable.sound
  have roles := readRoles policy.roles [] [] sound.roles sound.names (by simp)
  have perms := readAllPerms policy.roles [] [] sound.roles sound.names (by simp)
  have named : ∀ role ∈ policy.roles.map Role.reloaded, tokenOk role.name 64 = true := by
    intro role member
    obtain ⟨written, listed, rfl⟩ := List.mem_map.mp member
    exact (sound.roles written listed).name
  have bindings := readGrants (policy.roles.map Role.reloaded) policy.bindings [] named
    writable.subjects (by simpa [Role.reloaded] using sound.bound) (by simpa using sound.distinct)
  simp only [List.nil_append] at roles perms bindings
  rw [stateRead, readLines_stateText writable]
  simp only [filter_isRoleLine, filter_isOtherLine, Policy.empty, roles, List.foldl_append, perms,
    bindings]
  rfl

/-! ## Decisions -/

/-- What is found under a name in the reloaded policy. -/
theorem findRole_reloaded (policy : Policy) (name : CString) :
    findRole policy.reloaded name = (findRole policy name).map Role.reloaded := by
  rw [findRole, findRole, Policy.reloaded, List.find?_map]
  rfl

/-- A reloaded role allows what its trimmed entries allow. -/
theorem reloaded_allows (role : Role) (action resource : CString) :
    role.reloaded.perms.any (Perm.allows action resource) =
      (role.perms.map Perm.reloaded).any (Perm.allows action resource) := by
  rw [Role.reloaded, any_addNew, List.any_nil, Bool.false_or]

/-- A text with a blank at an end. -/
def hasBlankEnd (text : CString) : Bool :=
  text.head?.any isBlank || text.getLast?.any isBlank

/-- No resource pattern of the policy has a blank at an end. -/
def Policy.Solid (policy : Policy) : Prop :=
  ∀ role ∈ policy.roles, ∀ perm ∈ role.perms, hasBlankEnd perm.resource = false

instance (policy : Policy) : Decidable policy.Solid :=
  inferInstanceAs (Decidable (∀ role ∈ policy.roles, ∀ perm ∈ role.perms, _))

/-- A free text without a blank at an end is not trimmed. -/
theorem trimWs_solid {text : CString} {max : Nat} (free : freeTextOk text max = true)
    (solid : hasBlankEnd text = false) : trimWs text = text := by
  simp only [hasBlankEnd, Bool.or_eq_false_iff] at solid
  simp only [freeTextOk, Bool.and_eq_true, Bool.not_eq_true', List.any_eq_false] at free
  have front : text.dropWhile isBlank = text := by
    cases text with
    | nil => rfl
    | cons byte rest =>
      have kept : isBlank byte = false := by simpa using solid.1
      rw [List.dropWhile_cons_of_neg (by simp [kept])]
  rw [trimWs, trim, front, List.rdropWhile_eq_self_iff]
  intro filled
  have kept : isBlank (text.getLast filled) = false := by
    simpa [List.getLast?_eq_some_getLast filled] using solid.2
  have line := free.2 _ (List.getLast_mem filled)
  simp only [Bool.or_eq_true, beq_iff_eq, not_or] at line
  simp only [isBlank, Bool.or_eq_false_iff, beq_eq_false_iff_ne, ne_eq] at kept
  simp [isLineBlank, kept, line]

/-- A valid policy without blanks at the ends of its resource patterns decides as before. -/
theorem opsCheck_reloaded {policy : Policy} (valid : policy.Valid) (solid : policy.Solid)
    (subject action : CString) (resource : Option CString) :
    opsCheck policy.reloaded subject action resource = opsCheck policy subject action resource := by
  have same (name : CString) :
      (findRole policy.reloaded name).any
          (fun role => role.perms.any (Perm.allows action (resource.getD []))) =
        (findRole policy name).any
          (fun role => role.perms.any (Perm.allows action (resource.getD []))) := by
    rw [findRole_reloaded, Option.any_map]
    cases search : findRole policy name with
    | none => rfl
    | some role =>
      have listed := (findRole_some search).1
      show role.reloaded.perms.any _ = role.perms.any _
      have kept : role.perms.map Perm.reloaded = role.perms := by
        conv_rhs => rw [← List.map_id role.perms]
        apply List.map_congr_left
        intro perm member
        have free := ((valid.roles role listed).perms perm member).resource
        rw [Perm.reloaded, trimWs_solid free (solid role listed perm member)]
        rfl
      rw [reloaded_allows, kept]
  simp only [opsCheck, same]
  rfl

/-- A restart keeps the decisions of a valid policy without blanks at the ends of its resource
patterns. -/
theorem opsCheck_restart {policy : Policy} (valid : policy.Valid) (solid : policy.Solid)
    (subject action : CString) (resource : Option CString) :
    opsCheck (restart policy) subject action resource =
      opsCheck policy subject action resource := by
  rw [restart, stateRead_stateText valid.writable]
  exact opsCheck_reloaded valid solid subject action resource

/-- In every reachable policy whose resource patterns have no blank at an end, every decision
is the same after a restart. -/
theorem restart_keeps_decisions (actions : List Action)
    (solid : (run policyStep Policy.empty actions).Solid) (subject action : CString)
    (resource : Option CString) :
    opsCheck (restart (run policyStep Policy.empty actions)) subject action resource =
      opsCheck (run policyStep Policy.empty actions) subject action resource :=
  opsCheck_restart (reachable_valid actions) solid subject action resource

/-- Three changes that let one subject act on one resource pattern. -/
def grantPattern (resource : CString) : List Action :=
  [.roleAdd (lit "viewer") none true, .roleAddPerm (lit "viewer") (lit "fs.read") (some resource),
    .grant (lit "alice") (lit "viewer") true]

/-- A pattern with a star inside is kept. -/
theorem restart_keeps_pattern :
    opsCheck (restart (run policyStep Policy.empty (grantPattern (lit "/data/* txt"))))
        (lit "alice") (lit "fs.read") (some (lit "/etc/shadow")) =
      opsCheck (run policyStep Policy.empty (grantPattern (lit "/data/* txt")))
        (lit "alice") (lit "fs.read") (some (lit "/etc/shadow")) :=
  restart_keeps_decisions _ (by decide +kernel) _ _ _

/-- A pattern of one space denies a path before a restart and allows it after one. -/
theorem restart_grants_right :
    ¬ ∀ (actions : List Action) (subject action : CString) (resource : Option CString),
      opsCheck (restart (run policyStep Policy.empty actions)) subject action resource =
        opsCheck (run policyStep Policy.empty actions) subject action resource := by
  intro kept
  have same := kept (grantPattern (lit " ")) (lit "alice") (lit "fs.read")
    (some (lit "/etc/shadow"))
  have denied : opsCheck (run policyStep Policy.empty (grantPattern (lit " "))) (lit "alice")
      (lit "fs.read") (some (lit "/etc/shadow")) = eacces := by decide +kernel
  have allowed : opsCheck (restart (run policyStep Policy.empty (grantPattern (lit " "))))
      (lit "alice") (lit "fs.read") (some (lit "/etc/shadow")) = 0 := by decide +kernel
  rw [denied, allowed] at same
  exact absurd same (by decide)

end HwrunOs.Permission
