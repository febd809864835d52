import HwrunOs.Library.Lookup
import HwrunOs.Sp.Access

/-!
# Disabled users

`sp_authenticate` refuses a user whose record is disabled. `sp_check_acl` does not read the
flag, so it keeps allowing what the roles of the record allow. The table is guarded as the rules
say exactly as long as no disabled user has a role of the role matrix.
-/

namespace HwrunOs.Sp

open HwrunOs.Bytes HwrunOs.Runs HwrunOs.Lookup

/-! ## The rules -/

/-- The access rules over a table: a user whose record is disabled does not authenticate and is
not authorised, and any other user is authorised by the roles of the record. -/
structure Guarded (sha256 : List UInt8 → Digest) (users : List User) : Prop where
  /-- A disabled user does not authenticate. -/
  refused : ∀ user record, findUser users user = some record → record.enabled = 0 →
    ∀ password room login, (authenticate sha256 users (some user) password room login).1 ≠ spOk
  /-- A disabled user is not allowed any action. -/
  denied : ∀ user record, findUser users user = some record → record.enabled = 0 →
    ∀ action allowed, authorize users (some user) (some action) ≠ spOk ∧
      checkAcl users (some user) (some action) (some allowed) ≠ (spOk, some true)
  /-- Any other user is allowed the actions of the roles of the record. -/
  allowed : ∀ user, (∀ record, findUser users user = some record → record.enabled ≠ 0) →
    ∀ action allowed, (authorize users (some user) (some action) = spOk ↔
        Allowed users user action) ∧
      (checkAcl users (some user) (some action) (some allowed) = (spOk, some true) ↔
        Allowed users user action)

/-! ## Tables -/

/-- No role of a list is in the role matrix. -/
def Powerless (roles : CString) : Prop :=
  ∀ role, HasRole roles role → role ∉ roleMatrix.map Prod.fst

/-- A disabled record has no role of the role matrix. -/
def User.Inert (record : User) : Prop := record.enabled = 0 → Powerless record.roles.val

/-- The records that lookups return are inert. -/
def TableInert (users : List User) : Prop :=
  ∀ user record, findUser users user = some record → record.Inert

/-- A disabled user does not authenticate. -/
theorem authenticate_disabled (sha256 : List UInt8 → Digest) {users : List User} {user : CString}
    {record : User} (found : findUser users user = some record) (disabled : record.enabled = 0)
    (password : Option CString) (room : Option UInt32) (login : Login) :
    (authenticate sha256 users (some user) password room login).1 ≠ spOk := by
  unfold authenticate
  cases password with
  | none =>
    show einval ≠ spOk
    decide
  | some password =>
    dsimp only
    rw [found]
    dsimp only
    rw [if_pos disabled]
    decide

/-- The rules hold of a table exactly when its disabled users have no role of the matrix. -/
theorem guarded_iff (sha256 : List UInt8 → Digest) (users : List User) :
    Guarded sha256 users ↔ TableInert users := by
  constructor
  · intro guarded user record found disabled role listed named
    obtain ⟨action, permits⟩ := (role_permits_iff role).mpr named
    have allowed : Allowed users user action := ⟨record, found, role, listed, permits⟩
    have refused := (guarded.denied user record found disabled action false).1
    exact refused ((authorize_eq users user action).mpr allowed)
  · intro inert
    have never {user : CString} {record : User} (found : findUser users user = some record)
        (disabled : record.enabled = 0) (action : CString) : ¬ Allowed users user action := by
      rintro ⟨other, again, role, listed, permits⟩
      obtain rfl : record = other := Option.some.inj (found.symm.trans again)
      exact inert user record found disabled role listed ((role_permits_iff role).mp ⟨_, permits⟩)
    constructor
    · intro user record found disabled
      exact authenticate_disabled sha256 found disabled
    · intro user record found disabled action allowed
      have denied := never found disabled action
      rw [← authorize_eq] at denied
      refine ⟨denied, ?_⟩
      rw [Ne, checkAcl_eq, ← authorize_eq]
      exact denied
    · intro user _ action allowed
      exact ⟨authorize_eq users user action, checkAcl_eq users user action allowed⟩

/-! ## Changes -/

/-- A change that gives no disabled user a role of the matrix: an added record is enabled or has
none, and so is a second record of a deleted name and each record that a restart reads. -/
def Harmless (sha256 : List UInt8 → Digest) (ctx : Ctx) : Change → Prop
  | .addUser user password roles enabled host =>
    ∀ record, newUser sha256 ctx.users user password roles enabled host = .ok record →
      enabled = 0 → Powerless (storedRoles roles).val
  | .delUser user _ =>
    ∀ name record, user = some name →
      findUser (ctx.users.eraseP (User.isNamed name)) name = some record → record.Inert
  | .reload opened => opened = true → TableInert (usersLoad (ctx.file.getD []))

/-- A record at the front of an inert table keeps it inert exactly when it is inert. -/
theorem tableInert_cons {users : List User} (inert : TableInert users) (record : User) :
    TableInert (record :: users) ↔ record.Inert := by
  constructor
  · intro longer
    exact longer record.user.val record (List.find?_cons_of_pos (beq_self_eq_true _))
  · intro first user other found
    rw [findUser] at found
    by_cases named : User.isNamed user record = true
    · rw [List.find?_cons_of_pos named] at found
      exact Option.some.inj found ▸ first
    · rw [List.find?_cons_of_neg named] at found
      exact inert user other found

/-- Removing a record keeps an inert table inert exactly when the next record of the name is
inert. -/
theorem tableInert_eraseP {users : List User} (inert : TableInert users) (name : CString) :
    TableInert (users.eraseP (User.isNamed name)) ↔
      ∀ record, findUser (users.eraseP (User.isNamed name)) name = some record →
        record.Inert := by
  constructor
  · intro shorter record found
    exact shorter name record found
  · intro next user record found
    by_cases same : user = name
    · exact next record (same ▸ found)
    · have apart (item : User) (named : User.isNamed name item = true) :
          User.isNamed user item = false := by
        simp only [User.isNamed, beq_iff_eq] at named
        simp only [User.isNamed, beq_eq_false_iff_ne, named]
        exact Ne.symm same
      rw [findUser, find?_eraseP apart] at found
      exact inert user record found

/-- A change keeps an inert table inert exactly when it is harmless. -/
theorem usersStep_inert (sha256 : List UInt8 → Digest) {ctx : Ctx} (inert : TableInert ctx.users)
    (change : Change) :
    TableInert (usersStep sha256 ctx change).users ↔ Harmless sha256 ctx change := by
  cases change with
  | addUser user password roles enabled host =>
    unfold usersStep Harmless
    dsimp only
    cases created : newUser sha256 ctx.users user password roles enabled host with
    | error code =>
      rw [addUser_error created]
      simp [inert]
    | ok record =>
      obtain ⟨stored, flag⟩ := newUser_ok created
      rw [addUser_users created, tableInert_cons inert, User.Inert, stored, flag]
      constructor
      · intro powerless _ _
        exact powerless
      · intro harmless
        exact harmless record rfl
  | delUser user save =>
    unfold usersStep Harmless
    dsimp only
    cases user with
    | none => simp [delUser, inert]
    | some user =>
      rw [delUser_users, tableInert_eraseP inert]
      constructor
      · intro next name record same found
        obtain rfl := Option.some.inj same
        exact next record found
      · intro next record found
        exact next user record rfl found
  | reload opened =>
    unfold usersStep Harmless reload
    dsimp only
    cases opened with
    | false => simp [TableInert, findUser]
    | true => simp

/-- In every run from the start of the plugin, over any user file, the rules hold in all states
exactly when every change is harmless. -/
theorem run_guarded_iff (sha256 : List UInt8 → Digest) (file : Option CString)
    (changes : List Change) :
    AllStates (usersStep sha256) (fun ctx => Guarded sha256 ctx.users) ⟨[], file⟩ changes ↔
      AllSteps (usersStep sha256) (Harmless sha256) ⟨[], file⟩ changes := by
  have initial : TableInert [] := by
    intro user record found
    cases found
  have sound (ctx : Ctx) (inert : TableInert ctx.users) : Guarded sha256 ctx.users :=
    (guarded_iff sha256 ctx.users).mpr inert
  have kept (ctx : Ctx) (change : Change) (inert : TableInert ctx.users)
      (harmless : Harmless sha256 ctx change) :
      TableInert (usersStep sha256 ctx change).users :=
    (usersStep_inert sha256 inert change).mpr harmless
  have broken (ctx : Ctx) (change : Change) (inert : TableInert ctx.users) (_ : True)
      (harmful : ¬ Harmless sha256 ctx change) :
      ¬ Guarded sha256 (usersStep sha256 ctx change).users := by
    intro guarded
    have after := (guarded_iff sha256 _).mp guarded
    exact harmful ((usersStep_inert sha256 inert change).mp after)
  have usually : AllSteps (usersStep sha256) (fun _ _ => True) ⟨[], file⟩ changes :=
    allSteps_of_forall (fun _ _ => trivial) _ _
  exact allStates_iff_allSteps sound kept broken initial usually

/-- A user added as a disabled administrator is authorised to sign with the keys. -/
theorem disabled_authorized :
    ¬ ∀ (sha256 : List UInt8 → Digest) (file : Option CString) (changes : List Change),
      AllStates (usersStep sha256) (fun ctx => Guarded sha256 ctx.users) ⟨[], file⟩ changes := by
  intro always
  let sha256 : List UInt8 → Digest := fun _ => ⟨List.replicate 32 0, rfl⟩
  let change : Change := .addUser (some (lit "mallory")) (some (lit "secret"))
    (some (lit "admin")) 0 ⟨some ⟨List.replicate 16 0, rfl⟩, true, true, .done⟩
  let users := (usersStep sha256 ⟨[], none⟩ change).users
  have guarded : Guarded sha256 users := (always sha256 none [change]).last
  have found : ∃ record, findUser users (lit "mallory") = some record ∧ record.enabled = 0 :=
    ⟨⟨⟨lit "mallory", by decide +kernel⟩, ⟨List.replicate 32 48, by decide +kernel⟩,
      ⟨List.replicate 64 48, by decide +kernel⟩, ⟨lit "admin", by decide +kernel⟩, 0⟩,
      by decide +kernel, rfl⟩
  obtain ⟨record, found, disabled⟩ := found
  have denied := (guarded.denied _ record found disabled (lit "key.sign") false).1
  exact denied (by decide +kernel)

end HwrunOs.Sp
