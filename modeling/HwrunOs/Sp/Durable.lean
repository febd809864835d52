import HwrunOs.Library.Answering
import HwrunOs.Sp.Accounts

/-!
# Accounts that last

The plugin is restarted now and then, and what it then knows is what the file of users holds. Its
list of records and its file stand for two sets of accounts, the ones in force and the ones that
were saved: a change is made in force, and saved with all others if the save works; a restart puts
the saved ones in force. An account is a salt, the hash of salt and password, roles, and whether it
is enabled.
-/

namespace HwrunOs.Sp

open HwrunOs.Answering HwrunOs.Bytes HwrunOs.Lookup HwrunOs.Runs

/-! ## The plugin -/

/-- A request. -/
inductive AuthRequest where
  /-- `sp_add_user`. -/
  | addUser (user password roles : Option CString) (enabled : Int) (host : Host)
  /-- `sp_del_user`. -/
  | delUser (user : Option CString) (save : Save)
  /-- `sp_authenticate`. -/
  | authenticate (user password : Option CString) (room : Option UInt32) (login : Login)
  /-- `sp_authorize`. -/
  | authorize (user action : Option CString)
  /-- A restart, which can open the file or not. -/
  | restart (opened : Bool)

/-- A code, and the session id of a login. -/
abbrev AuthAnswer := Int × Option CString

/-- One request to the plugin. -/
def authStep (sha256 : List UInt8 → Digest) (ctx : Ctx) : AuthRequest → Ctx × AuthAnswer
  | .addUser user password roles enabled host =>
    ((addUser sha256 ctx user password roles enabled host).1,
      (addUser sha256 ctx user password roles enabled host).2, none)
  | .delUser user save => ((delUser ctx user save).1, (delUser ctx user save).2, none)
  | .authenticate user password room login =>
    (ctx, authenticate sha256 ctx.users user password room login)
  | .authorize user action => (ctx, authorize ctx.users user action, none)
  | .restart opened => (reload ctx opened, spOk, none)

/-- The plugin where it was never run before. -/
def authPlugin (sha256 : List UInt8 → Digest) : Machine Ctx AuthRequest AuthAnswer :=
  ⟨⟨[], none⟩, authStep sha256⟩

/-! ## Accounts -/

/-- An account. -/
structure Credential where
  /-- The salt. -/
  salt : Salt
  /-- The hash of the salt and the password. -/
  digest : Digest
  /-- The roles, with commas between them. -/
  roles : CString
  /-- It is enabled. -/
  enabled : Bool

/-- Accounts by their names. -/
abbrev Accounts := CString → Option Credential

/-- The accounts in force, and those that were saved. -/
structure AccountStore where
  /-- In force. -/
  live : Accounts
  /-- Saved. -/
  saved : Accounts

/-- Accounts are in force, and saved if the save works. -/
def AccountStore.put (store : AccountStore) (live : Accounts) : Save → AccountStore × AuthAnswer
  | .done => (⟨live, live⟩, spOk, none)
  | _ => ({ store with live := live }, eio, none)

/-- The hash of a password with a salt: it may have at most 4080 bytes. -/
def hashWith (sha256 : List UInt8 → Digest) (salt : Salt) (password : CString) (hashed : Bool) :
    Except Int Digest :=
  if 4080 < password.length then .error einval
  else if hashed then .ok (sha256 (salt.val ++ password))
  else .error eio

/-- The roles of an account that is given some, or none. -/
def givenRoles : Option CString → CString
  | some (first :: rest) => first :: rest
  | _ => defaultRoles

/-- A new account, or why there is none. -/
def newAccount (sha256 : List UInt8 → Digest) (live : Accounts)
    (user password roles : Option CString) (enabled : Int) (host : Host) :
    Except Int (CString × Credential) :=
  match user, password with
  | some user, some password =>
    if user = [] ∨ ∃ byte ∈ user, isSeparator byte = true then .error einval
    else match host.salt with
      | none => .error eio
      | some salt => match hashWith sha256 salt password host.hashed with
        | .error code => .error code
        | .ok digest =>
          if (live user).isSome then .error eexist
          else if host.memory then .ok (user, ⟨salt, digest, givenRoles roles, enabled ≠ 0⟩)
          else .error enomem
  | _, _ => .error einval

/-- What a login is answered. -/
def loginAnswer (sha256 : List UInt8 → Digest) (live : Accounts)
    (user password : Option CString) (room : Option UInt32) (login : Login) : AuthAnswer :=
  match user, password with
  | some user, some password =>
    match live user with
    | none => (ebadcred, none)
    | some account =>
      if !account.enabled then (ebadcred, none)
      else match hashWith sha256 account.salt password login.hashed with
        | .error code => (code, none)
        | .ok digest =>
          if digest ≠ account.digest then (ebadcred, none)
          else match room with
            | some cap => (spOk, if cap = 0 then none else some (sessionId login user cap.toNat))
            | none => (spOk, none)
  | _, _ => (einval, none)

open Classical in
/-- What a request for an action is answered: one of the roles must permit it. That the account is
enabled is not asked for. -/
noncomputable def permission (live : Accounts) (user action : Option CString) : Int :=
  match user, action with
  | some user, some action =>
    if ∃ account, live user = some account ∧
      ∃ role, HasRole account.roles role ∧ RolePermits role action then spOk else eacces
  | _, _ => einval

/-- One request to the accounts. -/
noncomputable def accountStep (sha256 : List UInt8 → Digest) (store : AccountStore) :
    AuthRequest → AccountStore × AuthAnswer
  | .addUser user password roles enabled host =>
    match newAccount sha256 store.live user password roles enabled host with
    | .error code => (store, code, none)
    | .ok (name, account) =>
      store.put (Function.update store.live name (some account)) host.save
  | .delUser user save =>
    match user with
    | none => (store, einval, none)
    | some name =>
      if (store.live name).isNone then (store, enotfound, none)
      else store.put (Function.update store.live name none) save
  | .authenticate user password room login =>
    (store, loginAnswer sha256 store.live user password room login)
  | .authorize user action => (store, permission store.live user action, none)
  | .restart opened =>
    ({ store with live := if opened then store.saved else fun _ => none }, spOk, none)

/-- No accounts. -/
noncomputable def accountBoard (sha256 : List UInt8 → Digest) :
    Machine AccountStore AuthRequest AuthAnswer :=
  ⟨⟨fun _ => none, fun _ => none⟩, accountStep sha256⟩

/-- A text of the file that is read back whole. -/
def Whole (text : CString) (room : Nat) : Prop :=
  text.length < room ∧ ∀ byte ∈ text, isFieldEnd byte = false

instance (text : CString) (room : Nat) : Decidable (Whole text room) :=
  inferInstanceAs (Decidable (_ ∧ _))

/-- What is added is read back whole, and no write is lost without a word. -/
def AuthRequest.Lasting : AuthRequest → Prop
  | .addUser user _ roles _ host =>
    (∀ name ∈ user, Whole name 64 ∧ name.head? ≠ some 35) ∧ (∀ text ∈ roles, Whole text 128) ∧
      (host.save = .done ∨ host.save = .failed)
  | .delUser _ save => save = .done ∨ save = .failed
  | _ => True

instance (request : AuthRequest) : Decidable request.Lasting := by
  unfold AuthRequest.Lasting
  split <;> infer_instance

/-! ## Records that stand for accounts -/

/-- A record stands for an account. -/
structure Depicts (record : User) (account : Credential) : Prop where
  /-- The salt. -/
  salt : record.saltHex.val = toHex account.salt.val
  /-- The hash. -/
  digest : record.hashHex.val = toHex account.digest.val
  /-- The roles. -/
  roles : record.roles.val = account.roles
  /-- The flag. -/
  enabled : record.enabled = 0 ↔ account.enabled = false

/-- A table stands for accounts, and a restart would keep it. -/
structure Stands (users : List User) (accounts : Accounts) : Prop where
  /-- Names are unique. -/
  unique : (tableNames users).Nodup
  /-- The records are made by the plugin. -/
  made : ∀ record ∈ users, record.Made
  /-- The records are storable. -/
  storable : ∀ record ∈ users, record.Storable
  /-- The names stand for what their records stand for. -/
  names : ∀ name, match accounts name with
    | none => findUser users name = none
    | some account => ∃ record, findUser users name = some record ∧ Depicts record account

/-- The plugin stands for the accounts in force and those that were saved. -/
structure StandsFor (ctx : Ctx) (store : AccountStore) : Prop where
  /-- In force. -/
  live : Stands ctx.users store.live
  /-- Saved. -/
  saved : Stands (usersLoad (ctx.file.getD [])) store.saved

section

variable {sha256 : List UInt8 → Digest} {users : List User} {accounts : Accounts}

/-- No records stand for no accounts. -/
theorem Stands.empty : Stands [] fun _ => none where
  unique := List.nodup_nil
  made := nofun
  storable := nofun
  names _ := rfl

/-- A name without an account has no record. -/
theorem Stands.absent (stands : Stands users accounts) {name : CString}
    (none_ : accounts name = none) : findUser users name = none := by
  have named := stands.names name
  rw [none_] at named
  exact named

/-- A name with an account has its record. -/
theorem Stands.held (stands : Stands users accounts) {name : CString} {account : Credential}
    (held : accounts name = some account) :
    ∃ record, findUser users name = some record ∧ Depicts record account := by
  have named := stands.names name
  rw [held] at named
  exact named

/-- A name has a record exactly when it has an account. -/
theorem Stands.isSome (stands : Stands users accounts) (name : CString) :
    (findUser users name).isSome = (accounts name).isSome := by
  cases known : accounts name with
  | none =>
    rw [stands.absent known]
    rfl
  | some account =>
    obtain ⟨record, found, -⟩ := stands.held known
    rw [found]
    rfl

/-- Records of one name are the same. -/
theorem isNamed_unique (unique : (tableNames users).Nodup) (name : CString) :
    ∀ first ∈ users, ∀ second ∈ users, User.isNamed name first = true →
      User.isNamed name second = true → first = second := by
  intro first listed second other named otherNamed
  refine List.inj_on_of_nodup_map unique listed other ?_
  exact ((isNamed_iff name first).mp named).trans ((isNamed_iff name second).mp otherNamed).symm

/-- A table that is saved and read stands for the same accounts. -/
theorem Stands.reload (stands : Stands users accounts) :
    Stands (usersLoad (usersText users)) accounts := by
  have read := usersLoad_storable stands.made stands.storable
  have perm : users.Perm (usersLoad (usersText users)) := by
    rw [read]
    exact (List.reverse_perm users).symm
  have found (name : CString) : findUser (usersLoad (usersText users)) name =
      findUser users name := (find?_eq_of_perm perm (isNamed_unique stands.unique name)).symm
  refine ⟨?_, ?_, ?_, ?_⟩
  · exact (perm.map fun record : User => record.user.val).nodup_iff.mp stands.unique
  · exact fun record listed => stands.made record (perm.mem_iff.mpr listed)
  · exact fun record listed => stands.storable record (perm.mem_iff.mpr listed)
  · intro name
    rw [found]
    exact stands.names name

/-- A new record stands for a new account. -/
theorem Stands.add (stands : Stands users accounts) {record : User} {account : Credential}
    (made : record.Made) (storable : record.Storable) (depicts : Depicts record account)
    (fresh : findUser users record.user.val = none) :
    Stands (record :: users) (Function.update accounts record.user.val (some account)) where
  unique := List.nodup_cons.mpr ⟨not_mem_tableNames.mpr fresh, stands.unique⟩
  made := List.forall_mem_cons.mpr ⟨made, stands.made⟩
  storable := List.forall_mem_cons.mpr ⟨storable, stands.storable⟩
  names name := by
    rw [findUser_cons]
    by_cases same : name = record.user.val
    · rw [same, Function.update_self, if_pos rfl]
      exact ⟨record, rfl, depicts⟩
    · rw [Function.update_of_ne same, if_neg (Ne.symm same)]
      exact stands.names name

/-- A table without the record of a name has no account of it. -/
theorem Stands.erase (stands : Stands users accounts) (name : CString) :
    Stands (users.eraseP (User.isNamed name)) (Function.update accounts name none) where
  unique := (List.eraseP_sublist.map _).nodup stands.unique
  made record listed := stands.made record (List.mem_of_mem_eraseP listed)
  storable record listed := stands.storable record (List.mem_of_mem_eraseP listed)
  names other := by
    by_cases same : other = name
    · rw [same, Function.update_self]
      -- Names are unique, so nothing is left of this one.
      have gone := filter_eraseP_self (isNamed_iff name) stands.unique
      rw [List.filter_eq_nil_iff] at gone
      exact List.find?_eq_none.mpr gone
    · rw [Function.update_of_ne same]
      have elsewhere : findUser (users.eraseP (User.isNamed name)) other =
          findUser users other := by
        apply find?_eraseP
        intro record named
        rw [← Bool.not_eq_true, isNamed_iff, (isNamed_iff name record).mp named]
        exact Ne.symm same
      rw [elsewhere]
      exact stands.names other

/-! ## Passwords and roles -/

/-- The hash of a password with the salt of an account, in hexadecimal digits. -/
theorem passwordHash_hashWith (salt : Salt) (password : CString) (hashed : Bool) :
    passwordHash sha256 password (toHex salt.val) hashed =
      (hashWith sha256 salt password hashed).map fun digest => toHex digest.val := by
  have length := salt.property
  unfold passwordHash hashWith
  rw [fromHex_toHex (by omega)]
  dsimp only
  by_cases long : 4080 < password.length
  · rw [if_pos long, if_pos (by omega)]
    rfl
  · rw [if_neg long, if_neg (by omega)]
    cases hashed with
    | false => rw [if_pos (.inr rfl)]; rfl
    | true =>
      rw [if_neg, if_pos rfl]
      · rfl
      · rintro (none | ⟨⟨⟩⟩)
        omega

/-- The digits of two hashes are compared as the hashes. -/
theorem ctEq_digest (first second : Digest) (rest : List UInt8) :
    ctEq (toHex first.val) (toHex second.val ++ rest) 64 = 0 ↔ first = second := by
  have firstLength := toHex_length first.val
  have secondLength := toHex_length second.val
  have firstBytes := first.property
  have secondBytes := second.property
  have compare := @ctEq_eq_zero (toHex first.val) (toHex second.val) rest (by omega)
  rw [show (toHex first.val).length = 64 by omega] at compare
  rw [compare]
  exact ⟨fun text => Subtype.ext (toHex_injective text), fun same => by rw [same]⟩

/-- A login is answered as the accounts call for. -/
theorem Stands.login (stands : Stands users accounts) (user password : Option CString)
    (room : Option UInt32) (login : Login) :
    authenticate sha256 users user password room login =
      loginAnswer sha256 accounts user password room login := by
  unfold authenticate loginAnswer
  cases user with
  | none => rfl
  | some user =>
    cases password with
    | none => rfl
    | some password =>
      dsimp only
      cases known : accounts user with
      | none => rw [stands.absent known]
      | some account =>
        obtain ⟨record, found, depicts⟩ := stands.held known
        rw [found]
        dsimp only
        cases on : account.enabled with
        | false =>
          rw [if_pos (depicts.enabled.mpr on)]
          rfl
        | true =>
          have enabled : ¬ record.enabled = 0 := fun zero => by
            rw [depicts.enabled.mp zero] at on
            cases on
          rw [if_neg enabled, depicts.salt, passwordHash_hashWith]
          cases hashWith sha256 account.salt password login.hashed with
          | error code => rfl
          | ok digest =>
            show (if ctEq (toHex digest.val) (record.hashHex.val ++ List.replicate 64 0) 64 ≠ 0
              then _ else _) = if digest ≠ account.digest then _ else _
            rw [depicts.digest]
            by_cases same : digest = account.digest
            · refine (if_neg (not_not.mpr ((ctEq_digest _ _ _).mpr same))).trans
                (Eq.trans ?_ (if_neg (not_not.mpr same)).symm)
              cases room <;> rfl
            · rw [if_pos fun zero => same ((ctEq_digest _ _ _).mp zero), if_pos same]

/-- `sp_authorize` of two strings grants or refuses. -/
theorem authorize_code (users : List User) (user action : CString) :
    authorize users (some user) (some action) = spOk ∨
      authorize users (some user) (some action) = eacces := by
  unfold authorize checkAcl
  dsimp only
  cases findUser users user with
  | none => exact .inr rfl
  | some record =>
    dsimp only
    rw [if_neg (not_not.mpr rfl)]
    split
    · exact .inl rfl
    · exact .inr rfl

/-- A request for an action is answered as the accounts call for. -/
theorem Stands.permission (stands : Stands users accounts) (user action : Option CString) :
    authorize users user action = Sp.permission accounts user action := by
  cases user with
  | none => rfl
  | some user =>
    cases action with
    | none => rfl
    | some action =>
      unfold Sp.permission
      dsimp only
      have allowed : Allowed users user action ↔ ∃ account, accounts user = some account ∧
          ∃ role, HasRole account.roles role ∧ RolePermits role action := by
        constructor
        · rintro ⟨record, found, permits⟩
          have known := stands.isSome user
          rw [found, Option.isSome_some] at known
          obtain ⟨account, held⟩ := Option.isSome_iff_exists.mp known.symm
          obtain ⟨other, same, depicts⟩ := stands.held held
          obtain rfl : record = other := Option.some.inj (found.symm.trans same)
          exact ⟨account, held, depicts.roles ▸ permits⟩
        · rintro ⟨account, held, permits⟩
          obtain ⟨record, found, depicts⟩ := stands.held held
          exact ⟨record, found, depicts.roles.symm ▸ permits⟩
      by_cases permits : Allowed users user action
      · rw [if_pos (allowed.mp permits)]
        exact (authorize_eq users user action).mpr permits
      · rw [if_neg fun given => permits (allowed.mpr given)]
        exact (authorize_code users user action).resolve_left fun granted =>
          permits ((authorize_eq users user action).mp granted)

/-! ## Changes -/

/-- Accounts are put in force, and saved if the save works. -/
theorem StandsFor.put {ctx : Ctx} {store : AccountStore} (stands : StandsFor ctx store)
    (live : Stands users accounts) {save : Save} (kept : save = .done ∨ save = .failed) :
    StandsFor (usersSave { ctx with users := users } save).1 (store.put accounts save).1 ∧
      ((usersSave { ctx with users := users } save).2, (none : Option CString)) =
        (store.put accounts save).2 := by
  rcases kept with rfl | rfl
  · exact ⟨⟨live, live.reload⟩, rfl⟩
  · exact ⟨⟨live, stands.saved⟩, rfl⟩

/-- The roles that are stored are the ones that are given. -/
theorem storedRoles_given {roles : Option CString} (whole : ∀ text ∈ roles, Whole text 128) :
    (storedRoles roles).val = givenRoles roles := by
  cases roles with
  | none => decide
  | some text =>
    cases text with
    | nil => decide
    | cons first rest => exact snprintf_eq (whole _ rfl).1

/-- They are read back whole. -/
theorem givenRoles_whole {roles : Option CString} (whole : ∀ text ∈ roles, Whole text 128) :
    ∀ byte ∈ givenRoles roles, isFieldEnd byte = false := by
  have viewer : ∀ byte ∈ defaultRoles, isFieldEnd byte = false := by decide +kernel
  cases roles with
  | none => exact viewer
  | some text =>
    cases text with
    | nil => exact viewer
    | cons first rest => exact (whole _ rfl).2

/-- The record that is made of a new account. -/
def recordOf (user : CString) (salt : Salt) (digest : Digest) (roles : Option CString)
    (enabled : Int) : User where
  user := Field.copy user
  saltHex := Field.copy (toHex salt.val)
  hashHex := Field.copy (toHex digest.val)
  roles := storedRoles roles
  enabled := if enabled = 0 then 0 else 1

/-- The record stands for the account. -/
theorem recordOf_depicts (user : CString) (salt : Salt) (digest : Digest) (enabled : Int)
    {roles : Option CString} (whole : ∀ text ∈ roles, Whole text 128) :
    Depicts (recordOf user salt digest roles enabled)
      ⟨salt, digest, givenRoles roles, enabled ≠ 0⟩ where
  salt := by
    have bytes := salt.property
    exact copy_toHex (by omega)
  digest := by
    have bytes := digest.property
    exact copy_toHex (by omega)
  roles := storedRoles_given whole
  enabled := by
    show (if enabled = 0 then (0 : Int) else 1) = 0 ↔ decide (enabled ≠ 0) = false
    by_cases zero : enabled = 0
    · simp [zero]
    · simp [zero]

/-- It is storable. -/
theorem recordOf_storable (salt : Salt) (digest : Digest) (enabled : Int) {user : CString}
    {roles : Option CString} (name : Whole user 64) (comment : user.head? ≠ some 35)
    (whole : ∀ text ∈ roles, Whole text 128) :
    (recordOf user salt digest roles enabled).Storable := by
  have stored : (recordOf user salt digest roles enabled).user.val = user := snprintf_eq name.1
  refine ⟨?_, ?_, ?_⟩
  · rw [stored]
    exact comment
  · rw [stored]
    exact name.2
  · show ∀ byte ∈ (storedRoles roles).val, isFieldEnd byte = false
    rw [storedRoles_given whole]
    exact givenRoles_whole whole

/-- A new record stands for the new account, or there is neither. -/
theorem Stands.new (stands : Stands users accounts) {user roles : Option CString}
    (password : Option CString) (enabled : Int) (host : Host)
    (names : ∀ name ∈ user, Whole name 64 ∧ name.head? ≠ some 35)
    (whole : ∀ text ∈ roles, Whole text 128) :
    (∃ code, newUser sha256 users user password roles enabled host = .error code ∧
      newAccount sha256 accounts user password roles enabled host = .error code) ∨
    ∃ record account, newUser sha256 users user password roles enabled host = .ok record ∧
      newAccount sha256 accounts user password roles enabled host =
        .ok (record.user.val, account) ∧
      Stands (record :: users) (Function.update accounts record.user.val (some account)) := by
  cases user with
  | none => exact .inl ⟨einval, rfl, rfl⟩
  | some user =>
    cases password with
    | none => exact .inl ⟨einval, rfl, rfl⟩
    | some password =>
      have checks : (user.isEmpty || user.any isSeparator) = true ↔
          user = [] ∨ ∃ byte ∈ user, isSeparator byte = true := by
        rw [Bool.or_eq_true, List.isEmpty_iff, List.any_eq_true]
      by_cases refused : user = [] ∨ ∃ byte ∈ user, isSeparator byte = true
      · exact .inl ⟨einval, if_pos (checks.mpr refused), if_pos refused⟩
      have accepted := mt checks.mp refused
      cases random : host.salt with
      | none => exact .inl ⟨eio, by simp [newUser, accepted, random], by
          simp [newAccount, refused, random]⟩
      | some salt =>
        have hashes := @passwordHash_hashWith sha256 salt password host.hashed
        cases hash : hashWith sha256 salt password host.hashed with
        | error code =>
          rw [hash] at hashes
          exact .inl ⟨code, by simp [newUser, accepted, random, hashes, Except.map], by
            simp [newAccount, refused, random, hash]⟩
        | ok digest =>
          rw [hash] at hashes
          have known := stands.isSome user
          by_cases taken : (accounts user).isSome = true
          · rw [taken] at known
            exact .inl ⟨eexist, by simp [newUser, accepted, random, hashes, known, Except.map], by
              simp [newAccount, refused, random, hash, taken]⟩
          rw [Bool.not_eq_true] at taken
          rw [taken] at known
          cases memory : host.memory with
          | false =>
            exact .inl ⟨enomem, by
              simp [newUser, accepted, random, hashes, known, memory, Except.map], by
              simp [newAccount, refused, random, hash, taken, memory]⟩
          | true =>
            have created : newUser sha256 users (some user) (some password) roles enabled host =
                .ok (recordOf user salt digest roles enabled) := by
              simp [newUser, accepted, random, hashes, known, memory, Except.map, recordOf]
            have stored : (recordOf user salt digest roles enabled).user.val = user :=
              snprintf_eq (names user rfl).1.1
            refine .inr ⟨_, ⟨salt, digest, givenRoles roles, enabled ≠ 0⟩, created, ?_, ?_⟩
            · rw [stored]
              simp [newAccount, refused, random, hash, taken, memory]
            · refine stands.add (newUser_made created)
                (recordOf_storable salt digest enabled (names user rfl).1 (names user rfl).2 whole)
                (recordOf_depicts user salt digest enabled whole) ?_
              rw [stored, ← Option.isNone_iff_eq_none, ← Option.not_isSome, known]
              rfl

/-- Every request is answered alike. -/
theorem StandsFor.step {ctx : Ctx} {store : AccountStore} (stands : StandsFor ctx store)
    (request : AuthRequest) (lasting : request.Lasting) :
    StandsFor (authStep sha256 ctx request).1 (accountStep sha256 store request).1 ∧
      (authStep sha256 ctx request).2 = (accountStep sha256 store request).2 := by
  cases request with
  | addUser user password roles enabled host =>
    obtain ⟨names, whole, kept⟩ := lasting
    unfold authStep accountStep
    dsimp only
    rcases @Stands.new sha256 _ _ stands.live user roles password enabled host names whole with
      ⟨code, refused, same⟩ | ⟨record, account, created, same, live⟩
    · rw [addUser_error refused, same]
      exact ⟨stands, rfl⟩
    · rw [addUser_ok created, same]
      exact stands.put live kept
  | delUser user save =>
    cases user with
    | none => exact ⟨stands, rfl⟩
    | some name =>
      have known := stands.live.isSome name
      unfold authStep accountStep delUser
      dsimp only
      rw [← Option.not_isSome, ← Option.not_isSome, known]
      by_cases absent : (!(store.live name).isSome) = true
      · rw [if_pos absent, if_pos absent]
        exact ⟨stands, rfl⟩
      · rw [if_neg absent, if_neg absent]
        exact stands.put (stands.live.erase name) lasting
  | authenticate user password room login =>
    exact ⟨stands, stands.live.login user password room login⟩
  | authorize user action =>
    exact ⟨stands, congrArg (·, none) (stands.live.permission user action)⟩
  | restart opened =>
    cases opened with
    | false => exact ⟨⟨.empty, stands.saved⟩, rfl⟩
    | true => exact ⟨⟨stands.saved, stands.saved⟩, rfl⟩

/-! ## Runs -/

/-- The plugin with its file does what the accounts do. -/
theorem accounts_refines :
    Refines (authPlugin sha256) (accountBoard sha256) StandsFor fun _ request =>
      request.Lasting where
  start := ⟨.empty, .empty⟩
  next _ _ request stands lasting := (stands.step request lasting).1
  answer _ _ request stands lasting := (stands.step request lasting).2

end

/-- In every run of requests, saves that fail and restarts, in which what is added is read back
whole, every request is answered as the accounts call for. -/
theorem accounts_last (sha256 : List UInt8 → Digest) (requests : List AuthRequest)
    (lasting : ∀ request ∈ requests, request.Lasting) :
    (authPlugin sha256).answers requests = (accountBoard sha256).answers requests :=
  accounts_refines.answers (allSteps_of_mem lasting _)

/-- A user is added, lost in a restart that cannot read the file, and back after the next one; a
second user whose save fails is gone with it. -/
def restartRequests (salt : Salt) : List AuthRequest :=
  [.addUser (some (lit "alice")) (some (lit "secret")) (some (lit "operator, security")) 1
      ⟨some salt, true, true, .done⟩,
    .authenticate (some (lit "alice")) (some (lit "secret")) none ⟨true, none, 0⟩,
    .authorize (some (lit "alice")) (some (lit "key.sign")), .restart false,
    .authorize (some (lit "alice")) (some (lit "key.sign")), .restart true,
    .addUser (some (lit "bob")) (some (lit "secret")) none 1 ⟨some salt, true, true, .failed⟩,
    .authenticate (some (lit "bob")) (some (lit "secret")) none ⟨true, none, 0⟩, .restart true,
    .authenticate (some (lit "bob")) (some (lit "secret")) none ⟨true, none, 0⟩,
    .authenticate (some (lit "alice")) (some (lit "Secret")) none ⟨true, none, 0⟩,
    .authenticate (some (lit "alice")) (some (lit "secret")) none ⟨true, none, 0⟩]

/-- They are answered as by the accounts. -/
theorem accounts_last_restart :
    (authPlugin secretHash).answers (restartRequests ⟨List.replicate 16 7, rfl⟩) =
        (accountBoard secretHash).answers (restartRequests ⟨List.replicate 16 7, rfl⟩) ∧
      ((authPlugin secretHash).answers
        (restartRequests ⟨List.replicate 16 7, rfl⟩)).map Prod.fst =
          [spOk, spOk, spOk, spOk, eacces, spOk, eio, spOk, spOk, ebadcred, ebadcred, spOk] :=
  ⟨accounts_last secretHash _ (by decide +kernel), by decide +kernel⟩

end HwrunOs.Sp
