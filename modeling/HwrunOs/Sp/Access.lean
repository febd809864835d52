import HwrunOs.Sp.Users
import Mathlib.Data.List.Nodup

/-!
# Authentication and authorisation

A user authenticates with a password and is authorised by the roles of the user's record. A role
stands for the actions that its permissions match; the roles of a record are separated by commas,
with blanks before them ignored.
-/

namespace HwrunOs.Sp

open HwrunOs.Bytes

/-! ## Permissions -/

/-- `sp_role_matrix`. -/
def roleMatrix : List (CString × List CString) :=
  [(lit "admin", [lit "*"]),
    (lit "operator", [lit "fs.write", lit "fs.read", lit "task.submit", lit "task.read",
      lit "key.sign", lit "net.config"]),
    (lit "viewer", [lit "fs.read", lit "task.read", lit "log.read"]),
    (lit "security", [lit "key.*", lit "user.*", lit "auth.*", lit "fs.read", lit "log.read"])]

/-- `sp_perm_match`. -/
def permMatch (perm action : CString) : Bool :=
  if perm = [42] then true
  else if perm.getLast? = some 42 then perm.dropLast.isPrefixOf action
  else perm == action

/-- `sp_role_allows`. -/
def roleAllows (role action : CString) : Bool :=
  match roleMatrix.find? fun row => row.1 == role with
  | none => false
  | some row => row.2.any fun perm => permMatch perm action

/-! ## Authorisation -/

/-- Whether a record allows an action by one of its roles. -/
def rolesAllow (roles action : CString) : Bool :=
  (tokens 44 (snprintf 128 roles)).any fun role => roleAllows (role.dropWhile isBlank) action

/-- `sp_check_acl`: the result and the content of `allowed` after the call, if it is no null
pointer. -/
def checkAcl (users : List User) (user action : Option CString) (allowed : Option Bool) :
    Int × Option Bool :=
  match user, action, allowed with
  | some user, some action, some _ =>
    match findUser users user with
    | none => (spOk, some false)
    | some record => (spOk, some (rolesAllow record.roles.val action))
  | _, _, _ => (einval, allowed)

/-- `sp_authorize`. -/
def authorize (users : List User) (user action : Option CString) : Int :=
  match checkAcl users user action (some false) with
  | (code, allowed) => if code ≠ spOk then code else if allowed = some true then spOk else eacces

/-! ## Authentication -/

/-- What a call of `sp_authenticate` meets outside the plugin. -/
structure Login where
  /-- Whether `openssl` runs. -/
  hashed : Bool
  /-- What `sp_random` returns, if it succeeds. -/
  random : Option Salt
  /-- The milliseconds of the clock. -/
  now : UInt64

/-- The session id that `sp_authenticate` writes into a buffer of some capacity. -/
def sessionId (login : Login) (user : CString) (cap : Nat) : CString :=
  snprintf cap (lit "sess-" ++ (match login.random with
    | some random => toHex random.val
    | none => decimal login.now.toNat) ++ 45 :: user)

/-- `sp_authenticate`: the result and the session id, where there is a buffer for it. -/
def authenticate (sha256 : List UInt8 → Digest) (users : List User)
    (user password : Option CString) (room : Option UInt32) (login : Login) :
    Int × Option CString :=
  match user, password with
  | some user, some password =>
    match findUser users user with
    | none => (ebadcred, none)
    | some record =>
      if record.enabled = 0 then (ebadcred, none)
      else match passwordHash sha256 password record.saltHex.val login.hashed with
        | .error code => (code, none)
        | .ok hash =>
          if ctEq hash (record.hashHex.val ++ List.replicate 64 0) 64 ≠ 0 then (ebadcred, none)
          else match room with
            | some cap =>
              (spOk, if cap = 0 then none else some (sessionId login user cap.toNat))
            | none => (spOk, none)
  | _, _ => (einval, none)

/-! ## What the roles of a record mean -/

/-- A permission stands for an action: it is the action, or it ends in a star and what is before
the star begins the action. -/
def Matches (perm action : CString) : Prop :=
  perm = action ∨ ∃ front, perm = front ++ [42] ∧ front <+: action

/-- A role has a permission for an action. -/
def RolePermits (role action : CString) : Prop :=
  ∃ perms, (role, perms) ∈ roleMatrix ∧ ∃ perm ∈ perms, Matches perm action

/-- A role stands in a list separated by commas, with blanks before it. -/
def HasRole (roles role : CString) : Prop :=
  ∃ part ∈ roles.splitOn 44, part.dropWhile isBlank = role

/-- A user is allowed an action by the roles of the user's record. -/
def Allowed (users : List User) (user action : CString) : Prop :=
  ∃ record, findUser users user = some record ∧
    ∃ role, HasRole record.roles.val role ∧ RolePermits role action

/-! ## What the functions decide -/

/-- `sp_perm_match` decides what a permission stands for. -/
theorem permMatch_iff (perm action : CString) :
    permMatch perm action = true ↔ Matches perm action := by
  unfold permMatch Matches
  by_cases star : perm = [42]
  · rw [if_pos star]
    have begins : ([] : CString) <+: action := List.nil_prefix
    exact ⟨fun _ => .inr ⟨[], star, begins⟩, fun _ => rfl⟩
  · rw [if_neg star]
    by_cases last : perm.getLast? = some 42
    · rw [if_pos last, List.isPrefixOf_iff_prefix]
      have shape : perm.dropLast ++ [42] = perm := List.dropLast_append_getLast? 42 last
      constructor
      · intro begins
        exact .inr ⟨_, shape.symm, begins⟩
      · rintro (rfl | ⟨front, rfl, begins⟩)
        · exact List.dropLast_prefix perm
        · rw [List.dropLast_concat]
          exact begins
    · rw [if_neg last, beq_iff_eq]
      constructor
      · exact .inl
      · rintro (same | ⟨front, rfl, -⟩)
        · exact same
        · rw [List.getLast?_concat] at last
          exact absurd rfl last

/-- No role has two rows. -/
theorem roleMatrix_distinct : (roleMatrix.map Prod.fst).Nodup := by decide +kernel

/-- `sp_role_allows` decides whether a role has a permission. -/
theorem roleAllows_iff (role action : CString) :
    roleAllows role action = true ↔ RolePermits role action := by
  unfold roleAllows RolePermits
  cases found : roleMatrix.find? fun row => row.1 == role with
  | none =>
    rw [List.find?_eq_none] at found
    constructor
    · intro never
      cases never
    · rintro ⟨perms, row, -⟩
      exact absurd (beq_self_eq_true role) (found _ row)
  | some row =>
    have named : row.1 = role := by simpa using List.find?_some found
    have member : row ∈ roleMatrix := List.mem_of_find?_eq_some found
    simp only [List.any_eq_true, permMatch_iff]
    constructor
    · rintro ⟨perm, listed, matched⟩
      exact ⟨row.2, named ▸ member, perm, listed, matched⟩
    · rintro ⟨perms, other, perm, listed, matched⟩
      have same : row = (role, perms) :=
        List.inj_on_of_nodup_map roleMatrix_distinct member other named
      rw [same]
      exact ⟨perm, listed, matched⟩

/-- Some action is permitted to every role of the table, and none to another. -/
theorem role_permits_iff (role : CString) :
    (∃ action, RolePermits role action) ↔ role ∈ roleMatrix.map Prod.fst := by
  constructor
  · rintro ⟨action, perms, row, -⟩
    exact List.mem_map.mpr ⟨_, row, rfl⟩
  · intro named
    obtain ⟨⟨role, perms⟩, row, rfl⟩ := List.mem_map.mp named
    have filled : ∀ row ∈ roleMatrix, row.2 ≠ [] := by decide +kernel
    obtain ⟨perm, listed⟩ := List.exists_mem_of_ne_nil perms (filled _ row)
    exact ⟨perm, perms, row, perm, listed, .inl rfl⟩

/-- The loop over the roles of a record finds a role that allows the action, if there is one. -/
theorem rolesAllow_iff {roles : CString} (fits : roles.length < 128) (action : CString) :
    rolesAllow roles action = true ↔ ∃ role, HasRole roles role ∧ RolePermits role action := by
  have nameless (perms : List CString) : ([], perms) ∉ roleMatrix := by
    intro row
    have named : ([] : CString) ∈ roleMatrix.map Prod.fst := List.mem_map.mpr ⟨_, row, rfl⟩
    exact absurd named (by decide +kernel)
  simp only [rolesAllow, snprintf_eq fits, List.any_eq_true, roleAllows_iff]
  constructor
  · rintro ⟨part, listed, permits⟩
    exact ⟨_, ⟨part, (List.mem_filter.mp listed).1, rfl⟩, permits⟩
  · rintro ⟨role, ⟨part, listed, rfl⟩, permits⟩
    refine ⟨part, List.mem_filter.mpr ⟨listed, ?_⟩, permits⟩
    -- The empty part has no role of the table.
    cases part with
    | nil =>
      obtain ⟨perms, row, -⟩ := permits
      exact absurd row (nameless perms)
    | cons byte rest => rfl

/-- `sp_check_acl` allows exactly what the roles of the record allow. -/
theorem checkAcl_eq (users : List User) (user action : CString) (allowed : Bool) :
    checkAcl users (some user) (some action) (some allowed) = (spOk, some true) ↔
      Allowed users user action := by
  unfold checkAcl Allowed
  dsimp only
  cases findUser users user with
  | none => simp
  | some record => simp [rolesAllow_iff record.roles.property]

/-- `sp_check_acl` of two strings succeeds. -/
theorem checkAcl_code (users : List User) (user action : CString) (allowed : Bool) :
    (checkAcl users (some user) (some action) (some allowed)).1 = spOk := by
  unfold checkAcl
  dsimp only
  cases findUser users user <;> rfl

/-- `sp_authorize` allows what `sp_check_acl` allows. -/
theorem authorize_eq (users : List User) (user action : CString) :
    authorize users (some user) (some action) = spOk ↔ Allowed users user action := by
  have code := checkAcl_code users user action false
  rw [← checkAcl_eq users user action false]
  unfold authorize
  cases result : checkAcl users (some user) (some action) (some false) with
  | mk first second =>
    rw [result] at code
    obtain rfl : first = spOk := code
    cases second with
    | none => simp [spOk, eacces]
    | some value => cases value <;> simp [spOk, eacces]

end HwrunOs.Sp
