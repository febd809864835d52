import HwrunOs.Library.Runs
import HwrunOs.Library.Lookup
import HwrunOs.Library.Bytes

/-!
# Roles, bindings and decisions

`permission_impl.c`: roles hold permission entries of an action and a resource pattern, and
subjects are bound to roles. A check allows an action when one entry of one bound role matches.
The lists keep the order of insertion.
-/

namespace HwrunOs.Permission

open HwrunOs.Bytes HwrunOs.Runs HwrunOs.Lookup

/-! ## Result codes -/

/-- `-ENOENT`. -/
def enoent : Int := -2
/-- `-ENOMEM`. -/
def enomem : Int := -12
/-- `-EACCES`. -/
def eacces : Int := -13
/-- `-EEXIST`. -/
def eexist : Int := -17
/-- `-EINVAL`. -/
def einval : Int := -22
/-- `-ENOSPC`. -/
def enospc : Int := -28

/-! ## Policy -/

/-- `hw_permission_perm_t`. -/
structure Perm where
  /-- Action pattern, 64 bytes. -/
  action : CString
  /-- Resource pattern, 256 bytes; empty for any resource. -/
  resource : CString
  deriving DecidableEq

/-- `perm_role_node_t`. -/
structure Role where
  /-- Name, 64 bytes. -/
  name : CString
  /-- Description, 256 bytes. -/
  description : CString
  /-- Entries, at most 64. -/
  perms : List Perm
  deriving DecidableEq

/-- `perm_binding_node_t`. -/
structure Binding where
  /-- Subject, 128 bytes. -/
  subject : CString
  /-- Role, 64 bytes. -/
  role : CString
  deriving DecidableEq

/-- The role table and the binding table. -/
structure Policy where
  /-- Roles in order of insertion. -/
  roles : List Role
  /-- Bindings in order of insertion. -/
  bindings : List Binding
  deriving DecidableEq

/-- The policy without roles. -/
def Policy.empty : Policy := ⟨[], []⟩

/-! ## Validation -/

/-- A byte that separates tokens or begins a comment. -/
def isTokenBreak (byte : UInt8) : Bool := isLineBlank byte || byte == 35

/-- `token_ok`. -/
def tokenOk (text : CString) (max : Nat) : Bool :=
  !text.isEmpty && decide (text.length < max) && !text.any isTokenBreak

/-- `free_text_ok`. -/
def freeTextOk (text : CString) (max : Nat) : Bool :=
  decide (text.length < max) && !text.any fun byte => byte == newline || byte == 13

/-- `glob_match`: a star matches any text and a question mark any byte. -/
def globMatch : CString → CString → Bool
  | [], text => text.isEmpty
  | byte :: pattern, text =>
    if byte = 42 then text.tails.any (globMatch pattern)
    else match text with
      | [] => false
      | first :: rest => (byte == 63 || byte == first) && globMatch pattern rest

/-- A star matches any front part. -/
theorem globMatch_star (pattern text : CString) :
    globMatch (42 :: pattern) text = text.tails.any (globMatch pattern) := rfl

/-- Every other byte of a pattern needs a byte of the text. -/
theorem globMatch_end {byte : UInt8} (plain : byte ≠ 42) (pattern : CString) :
    globMatch (byte :: pattern) [] = false := by
  simp [globMatch, plain]

/-- Every other byte of a pattern matches one byte. -/
theorem globMatch_cons {byte : UInt8} (plain : byte ≠ 42) (pattern : CString) (first : UInt8)
    (text : CString) : globMatch (byte :: pattern) (first :: text) =
      ((byte == 63 || byte == first) && globMatch pattern text) := by
  simp [globMatch, plain]

/-! ## Changes -/

/-- Whether a role has a name. -/
def Role.isNamed (name : CString) (role : Role) : Bool := role.name == name

/-- Whether a binding binds a subject to a role. -/
def Binding.isOf (subject role : CString) (binding : Binding) : Bool :=
  binding.subject == subject && binding.role == role

/-- `find_role_locked`. -/
def findRole (policy : Policy) (name : CString) : Option Role :=
  policy.roles.find? (Role.isNamed name)

/-- `find_binding_locked`. -/
def findBinding (policy : Policy) (subject role : CString) : Option Binding :=
  policy.bindings.find? (Binding.isOf subject role)

/-- Write the first role of a name in place. -/
def updateRole (name : CString) (change : Role → Role) (roles : List Role) : List Role :=
  updateFirst (Role.isNamed name) change roles

/-- `append_role_locked`. -/
def appendRole (policy : Policy) (name description : CString) : Policy :=
  { policy with roles := policy.roles ++ [⟨snprintf 64 name, snprintf 256 description, []⟩] }

/-- `append_binding_locked`. -/
def appendBinding (policy : Policy) (subject role : CString) : Policy :=
  { policy with bindings := policy.bindings ++ [⟨snprintf 128 subject, snprintf 64 role⟩] }

/-- `role_add_locked`; `alloc` is the outcome of the allocation and an absent description a null
pointer. -/
def roleAdd (policy : Policy) (name : CString) (description : Option CString) (alloc : Bool) :
    Policy × Int :=
  if !tokenOk name 64 then (policy, einval)
  else if !freeTextOk (description.getD []) 256 then (policy, einval)
  else if (findRole policy name).isSome then (policy, eexist)
  else if !alloc then (policy, enomem)
  else (appendRole policy name (description.getD []), 0)

/-- `role_remove_locked`: the role goes with its bindings. -/
def roleRemove (policy : Policy) (name : CString) : Policy × Int :=
  if (findRole policy name).isNone then (policy, enoent)
  else
    ({ roles := policy.roles.eraseP (Role.isNamed name)
       bindings := policy.bindings.filter fun binding => binding.role != name }, 0)

/-- Whether an entry has an action and a resource pattern. -/
def Perm.isOf (action resource : CString) (perm : Perm) : Bool :=
  perm.action == action && perm.resource == resource

/-- `role_add_perm_locked`. -/
def roleAddPerm (policy : Policy) (role action : CString) (resource : Option CString) :
    Policy × Int :=
  match findRole policy role with
  | none => (policy, enoent)
  | some found =>
    let res := resource.getD []
    if !tokenOk action 64 then (policy, einval)
    else if !freeTextOk res 256 then (policy, einval)
    else if found.perms.any (Perm.isOf action res) then (policy, eexist)
    else if 64 ≤ found.perms.length then (policy, enospc)
    else
      ({ policy with
          roles := updateRole role (fun role =>
            { role with perms := role.perms ++ [⟨snprintf 64 action, snprintf 256 res⟩] })
            policy.roles }, 0)

/-- `role_remove_perm_locked`: the first matching entry goes. -/
def roleRemovePerm (policy : Policy) (role action : CString) (resource : Option CString) :
    Policy × Int :=
  match findRole policy role with
  | none => (policy, enoent)
  | some found =>
    let res := resource.getD []
    if !tokenOk action 64 then (policy, einval)
    else if !freeTextOk res 256 then (policy, einval)
    else if found.perms.any (Perm.isOf action res) then
      ({ policy with
          roles := updateRole role (fun role =>
            { role with perms := role.perms.eraseP (Perm.isOf action res) }) policy.roles }, 0)
    else (policy, enoent)

/-- `grant_locked`. -/
def grant (policy : Policy) (subject role : CString) (alloc : Bool) : Policy × Int :=
  if !tokenOk subject 128 then (policy, einval)
  else if !tokenOk role 64 then (policy, einval)
  else if (findRole policy role).isNone then (policy, enoent)
  else if (findBinding policy subject role).isSome then (policy, eexist)
  else if !alloc then (policy, enomem)
  else (appendBinding policy subject role, 0)

/-- `revoke_locked`: the first matching binding goes. -/
def revoke (policy : Policy) (subject role : CString) : Policy × Int :=
  if !tokenOk subject 128 then (policy, einval)
  else if !tokenOk role 64 then (policy, einval)
  else if (findBinding policy subject role).isNone then (policy, enoent)
  else
    ({ policy with
        bindings := policy.bindings.eraseP (Binding.isOf subject role) }, 0)

/-! ## Decisions -/

/-- An entry allows an action on a resource. -/
def Perm.allows (action resource : CString) (perm : Perm) : Bool :=
  globMatch perm.action action && (perm.resource.isEmpty || globMatch perm.resource resource)

/-- `ops_check`: zero when a bound role has an entry that matches. -/
def opsCheck (policy : Policy) (subject action : CString) (resource : Option CString) : Int :=
  if subject = [] ∨ action = [] then einval
  else if policy.bindings.any fun binding =>
      binding.subject == subject && ((findRole policy binding.role).any fun role =>
        role.perms.any (Perm.allows action (resource.getD []))) then 0
  else eacces

/-! ## Runs -/

/-- A change of the policy, with the outcome of its allocation. -/
inductive Action where
  /-- `role_add`. -/
  | roleAdd (name : CString) (description : Option CString) (alloc : Bool)
  /-- `role_remove`. -/
  | roleRemove (name : CString)
  /-- `role_add_perm`. -/
  | roleAddPerm (role action : CString) (resource : Option CString)
  /-- `role_remove_perm`. -/
  | roleRemovePerm (role action : CString) (resource : Option CString)
  /-- `grant`. -/
  | grant (subject role : CString) (alloc : Bool)
  /-- `revoke`. -/
  | revoke (subject role : CString)

/-- The policy after a change. -/
def policyStep (policy : Policy) : Action → Policy
  | .roleAdd name description alloc => (roleAdd policy name description alloc).1
  | .roleRemove name => (roleRemove policy name).1
  | .roleAddPerm role action resource => (roleAddPerm policy role action resource).1
  | .roleRemovePerm role action resource => (roleRemovePerm policy role action resource).1
  | .grant subject role alloc => (grant policy subject role alloc).1
  | .revoke subject role => (revoke policy subject role).1

end HwrunOs.Permission
