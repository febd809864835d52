import Mathlib.Data.Set.Basic
import Mathlib.Logic.Function.Basic

/-!
# Role-based access control

Roles have permissions, subjects are assigned to roles, and a request is allowed when a role of its
subject has a permission that covers it.
-/

namespace HwrunOs.Roles

variable {ν π ς ρ : Type*}

/-- The roles with their permissions, and who is assigned to which. -/
@[ext] structure Rbac (ν π ς : Type*) where
  /-- The names of the roles. -/
  roles : Set ν
  /-- The permissions of a role. -/
  perms : ν → Set π
  /-- The subjects with their roles. -/
  assigned : Set (ς × ν)

/-- No role. -/
def Rbac.empty : Rbac ν π ς := ⟨∅, fun _ => ∅, ∅⟩

/-- A role of the subject has a permission that covers the request. -/
def Rbac.Allowed (covers : π → ρ → Prop) (state : Rbac ν π ς) (subject : ς) (request : ρ) : Prop :=
  ∃ role, (subject, role) ∈ state.assigned ∧ ∃ perm ∈ state.perms role, covers perm request

/-! ## Operations -/

variable [DecidableEq ν]

/-- A role without permissions is added. -/
def Rbac.addRole (state : Rbac ν π ς) (role : ν) : Rbac ν π ς :=
  { state with roles := insert role state.roles }

/-- A role is deleted, with its permissions and assignments. -/
def Rbac.deleteRole (state : Rbac ν π ς) (role : ν) : Rbac ν π ς where
  roles := state.roles \ {role}
  perms := Function.update state.perms role ∅
  assigned := {entry | entry ∈ state.assigned ∧ entry.2 ≠ role}

/-- A role gets a permission. -/
def Rbac.addPerm (state : Rbac ν π ς) (role : ν) (perm : π) : Rbac ν π ς :=
  { state with perms := Function.update state.perms role (insert perm (state.perms role)) }

/-- A role loses a permission. -/
def Rbac.removePerm (state : Rbac ν π ς) (role : ν) (perm : π) : Rbac ν π ς :=
  { state with perms := Function.update state.perms role (state.perms role \ {perm}) }

/-- A subject is assigned to a role. -/
def Rbac.assign (state : Rbac ν π ς) (subject : ς) (role : ν) : Rbac ν π ς :=
  { state with assigned := insert (subject, role) state.assigned }

/-- A subject is no longer assigned to a role. -/
def Rbac.deassign (state : Rbac ν π ς) (subject : ς) (role : ν) : Rbac ν π ς :=
  { state with assigned := state.assigned \ {(subject, role)} }

end HwrunOs.Roles
