import HwrunOs.Library.Runs
import HwrunOs.Sp.Util

/-!
# The user table of the security plugin

`sp_auth.c` keeps the users in a linked list, newest first, and writes the list to a file after
each change. A restart of the plugin empties the list and reads the file. A field of a record is
a C string that fits its array, so no record holds more than the source's could.
-/

namespace HwrunOs.Sp

open HwrunOs.Bytes HwrunOs.Runs

/-! ## Records -/

/-- `sp_user_t`. -/
structure User where
  /-- User name. -/
  user : Field 64
  /-- Salt, in hexadecimal digits. -/
  saltHex : Field 80
  /-- Hash of salt and password, in hexadecimal digits. -/
  hashHex : Field 160
  /-- Roles, separated by commas. -/
  roles : Field 128
  /-- Zero for a disabled user. -/
  enabled : Int
  deriving DecidableEq

/-- The user table and the user file. -/
structure Ctx where
  /-- `users` of `sp_ctx_t`. -/
  users : List User
  /-- The file `sp_users.conf`. -/
  file : Option CString
  deriving DecidableEq

/-- Whether a record has a user name. -/
def User.isNamed (name : CString) (record : User) : Bool := record.user.val == name

/-- `sp_user_find_locked`. -/
def findUser (users : List User) (name : CString) : Option User :=
  users.find? (User.isNamed name)

/-! ## Passwords -/

/-- A SHA-256 value. -/
abbrev Digest := { bytes : List UInt8 // bytes.length = 32 }

/-- Sixteen random bytes. -/
abbrev Salt := { bytes : List UInt8 // bytes.length = 16 }

/-- `sp_password_hash` into a buffer that holds 64 digits; `hashed` is the outcome of running
`openssl`. -/
def passwordHash (sha256 : List UInt8 → Digest) (password saltHex : CString) (hashed : Bool) :
    Except Int CString :=
  match fromHex saltHex 16 with
  | .error _ => .error einval
  | .ok salt =>
    if 4096 < salt.length + password.length then .error einval
    else if salt.length + password.length = 0 ∨ hashed = false then .error eio
    else .ok (toHex (sha256 (salt ++ password)).val)

/-! ## The user file -/

/-- A byte that separates fields or lines. -/
def isSeparator (byte : UInt8) : Bool := byte == 58 || byte == newline

/-- The role of a user without roles. -/
def defaultRoles : CString := lit "viewer"

/-- Whether a record is written: no field has a separator. -/
def User.isWritten (record : User) : Bool :=
  !(record.user.val.any isSeparator || record.roles.val.any isSeparator ||
    record.saltHex.val.any isSeparator || record.hashHex.val.any isSeparator)

/-- The line of a record. -/
def userLine (record : User) : CString :=
  record.user.val ++ 58 :: record.saltHex.val ++ 58 :: record.hashHex.val ++
    58 :: (if record.roles.val.isEmpty then defaultRoles else record.roles.val) ++
    58 :: signedDecimal record.enabled

/-- The text that `sp_users_save` writes. -/
def usersText (users : List User) : CString :=
  (lit "# HWRun SP user table (salted sha256)" ::
    (users.filter User.isWritten).map userLine).flatMap (· ++ [newline])

/-- How `sp_users_save` ends. -/
inductive Save
  /-- The text is written and the file replaced. -/
  | done
  /-- The file is replaced, after errors of `fprintf` that `fclose` does not report. -/
  | damaged (file : CString)
  /-- `fopen`, `fclose` or `rename` fails, and the file is as before. -/
  | failed
  deriving DecidableEq

/-- `sp_users_save`. -/
def usersSave (ctx : Ctx) : Save → Ctx × Int
  | .done => ({ ctx with file := some (usersText ctx.users) }, spOk)
  | .damaged file => ({ ctx with file := some file }, spOk)
  | .failed => (ctx, eio)

/-- The record of a line that `sp_users_load` reads, if it is one. -/
def parseUser (line : CString) : Option User :=
  let text := line.takeWhile fun byte => !(byte == 0 || byte == 13 || byte == newline)
  if text.isEmpty || text.head? == some 35 then none
  else match tokens 58 text with
    | user :: salt :: hash :: rest => some {
        user := Field.copy user
        saltHex := Field.copy salt
        hashHex := Field.copy hash
        roles := Field.copy (rest.head?.getD defaultRoles)
        enabled := match rest[1]? with
          | some enabled => atoi enabled
          | none => 1 }
    | _ => none

/-- `sp_users_load` into an empty table: each record goes to the front. -/
def usersLoad (file : CString) : List User :=
  ((fgetsLines 1024 file).filterMap parseUser).reverse

/-! ## Changes -/

/-- What a call of `sp_add_user` meets outside the plugin. -/
structure Host where
  /-- What `sp_random` returns, if it succeeds. -/
  salt : Option Salt
  /-- Whether `openssl` runs. -/
  hashed : Bool
  /-- Whether the record is allocated. -/
  memory : Bool
  /-- How the table is saved. -/
  save : Save
  deriving DecidableEq

/-- The role list that `sp_add_user` stores. -/
def storedRoles (roles : Option CString) : Field 128 :=
  Field.copy (match roles with
    | some roles => if roles.isEmpty then defaultRoles else roles
    | none => defaultRoles)

section Changes

variable (sha256 : List UInt8 → Digest)

/-- The record that `sp_add_user` adds to a table, or its error. -/
def newUser (users : List User) (user password roles : Option CString) (enabled : Int)
    (host : Host) : Except Int User :=
  match user, password with
  | some user, some password =>
    if user.isEmpty || user.any isSeparator then .error einval
    else match host.salt with
      | none => .error eio
      | some salt => match passwordHash sha256 password (toHex salt.val) host.hashed with
        | .error code => .error code
        | .ok hash =>
          if (findUser users user).isSome then .error eexist
          else if host.memory = false then .error enomem
          else .ok {
            user := Field.copy user
            saltHex := Field.copy (toHex salt.val)
            hashHex := Field.copy hash
            roles := storedRoles roles
            enabled := if enabled = 0 then 0 else 1 }
  | _, _ => .error einval

/-- `sp_add_user`. -/
def addUser (ctx : Ctx) (user password roles : Option CString) (enabled : Int) (host : Host) :
    Ctx × Int :=
  match newUser sha256 ctx.users user password roles enabled host with
  | .error code => (ctx, code)
  | .ok record => usersSave { ctx with users := record :: ctx.users } host.save

/-- `sp_del_user`. -/
def delUser (ctx : Ctx) (user : Option CString) (save : Save) : Ctx × Int :=
  match user with
  | none => (ctx, einval)
  | some user =>
    if (findUser ctx.users user).isNone then (ctx, enotfound)
    else usersSave { ctx with users := ctx.users.eraseP (User.isNamed user) } save

/-- `sp_auth_cleanup`, then `sp_auth_init`; `opened` is the outcome of opening the file. -/
def reload (ctx : Ctx) (opened : Bool) : Ctx :=
  { ctx with users := if opened then usersLoad (ctx.file.getD []) else [] }

/-- One change of the user table. -/
inductive Change
  /-- A call of `sp_add_user`. -/
  | addUser (user password roles : Option CString) (enabled : Int) (host : Host)
  /-- A call of `sp_del_user`. -/
  | delUser (user : Option CString) (save : Save)
  /-- A restart of the plugin. -/
  | reload (opened : Bool)

/-- The state after a change. -/
def usersStep (ctx : Ctx) : Change → Ctx
  | .addUser user password roles enabled host =>
    (addUser sha256 ctx user password roles enabled host).1
  | .delUser user save => (delUser ctx user save).1
  | .reload opened => reload ctx opened

/-! ## What a change does to the table -/

/-- What a call that adds a record has met, and the record. -/
structure Created (users : List User) (name password : CString) (roles : Option CString)
    (enabled : Int) (host : Host) (salt : Salt) (hash : CString) (record : User) : Prop where
  /-- The name is not empty. -/
  filled : name ≠ []
  /-- It has no separator. -/
  plain : ∀ byte ∈ name, isSeparator byte = false
  /-- The salt is random. -/
  random : host.salt = some salt
  /-- The password is hashed. -/
  hashed : passwordHash sha256 password (toHex salt.val) host.hashed = .ok hash
  /-- No record has the name. -/
  absent : findUser users name = none
  /-- The record. -/
  same : record = {
    user := Field.copy name
    saltHex := Field.copy (toHex salt.val)
    hashHex := Field.copy hash
    roles := storedRoles roles
    enabled := if enabled = 0 then 0 else 1 }

/-- Saving leaves the table alone. -/
@[simp] theorem usersSave_users (ctx : Ctx) (save : Save) :
    (usersSave ctx save).1.users = ctx.users := by
  cases save <;> rfl

variable {sha256}

/-- A rejected `sp_add_user` leaves the state alone. -/
theorem addUser_error {ctx : Ctx} {user password roles : Option CString} {enabled : Int}
    {host : Host} {code : Int}
    (rejected : newUser sha256 ctx.users user password roles enabled host = .error code) :
    addUser sha256 ctx user password roles enabled host = (ctx, code) := by
  rw [addUser, rejected]

/-- Any other `sp_add_user` adds its record and saves the table. -/
theorem addUser_ok {ctx : Ctx} {user password roles : Option CString} {enabled : Int}
    {host : Host} {record : User}
    (created : newUser sha256 ctx.users user password roles enabled host = .ok record) :
    addUser sha256 ctx user password roles enabled host =
      usersSave { ctx with users := record :: ctx.users } host.save := by
  rw [addUser, created]

/-- The record goes to the front of the table. -/
theorem addUser_users {ctx : Ctx} {user password roles : Option CString} {enabled : Int}
    {host : Host} {record : User}
    (created : newUser sha256 ctx.users user password roles enabled host = .ok record) :
    (addUser sha256 ctx user password roles enabled host).1.users = record :: ctx.users := by
  rw [addUser_ok created]
  exact usersSave_users _ _

/-- A call that adds a record has a name and a password and meets nothing that fails. -/
theorem newUser_created {users : List User} {user password roles : Option CString} {enabled : Int}
    {host : Host} {record : User}
    (created : newUser sha256 users user password roles enabled host = .ok record) :
    ∃ name secret salt hash, user = some name ∧ password = some secret ∧
      Created sha256 users name secret roles enabled host salt hash record := by
  unfold newUser at created
  split at created
  case h_2 => cases created
  next name secret =>
    split at created
    · cases created
    next accepted =>
      split at created
      · cases created
      next salt random =>
        split at created
        · cases created
        next hash hashed =>
          split at created
          · cases created
          next found =>
            split at created
            · cases created
            · obtain ⟨filled, plain⟩ := not_or.mp (Bool.or_eq_true _ _ ▸ accepted)
              have plain := List.any_eq_false.mp (by simpa using plain)
              refine ⟨name, secret, salt, hash, rfl, rfl, by simpa using filled, ?_, random, hashed,
                by simpa using found, (Except.ok.inj created).symm⟩
              exact fun byte here => by simpa using plain byte here

/-- A new record has the roles and the flag of the call. -/
theorem newUser_ok {users : List User} {user password roles : Option CString} {enabled : Int}
    {host : Host} {record : User}
    (created : newUser sha256 users user password roles enabled host = .ok record) :
    record.roles = storedRoles roles ∧ (record.enabled = 0 ↔ enabled = 0) := by
  obtain ⟨_, _, _, _, -, -, made⟩ := newUser_created created
  rw [made.same]
  refine ⟨rfl, ?_⟩
  show (if enabled = 0 then (0 : Int) else 1) = 0 ↔ enabled = 0
  by_cases disabled : enabled = 0
  · simp [disabled]
  · simp [disabled]

/-- `sp_del_user` removes the first record of the name. -/
theorem delUser_users (ctx : Ctx) (user : CString) (save : Save) :
    (delUser ctx (some user) save).1.users = ctx.users.eraseP (User.isNamed user) := by
  unfold delUser
  dsimp only
  split
  · rename_i absent
    have unnamed : ∀ record ∈ ctx.users, ¬ User.isNamed user record = true := by
      rw [Option.isNone_iff_eq_none, findUser, List.find?_eq_none] at absent
      exact absent
    exact (List.eraseP_of_forall_not unnamed).symm
  · exact usersSave_users _ _

end Changes

end HwrunOs.Sp
