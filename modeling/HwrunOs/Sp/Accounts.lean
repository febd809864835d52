import Mathlib.Logic.Function.Basic
import HwrunOs.Library.Lookup
import HwrunOs.Sp.Access
import HwrunOs.Sp.Hex
import HwrunOs.Sp.Reload

/-!
# Users as accounts

What a caller of `sp_add_user` and `sp_del_user` may rely on: a name has one password from the
call that added it until the call that deletes it, and a call that fails changes nothing. Names
are looked up whole but stored in 64 bytes, and the table is changed before the save that may
fail, so the calls keep to this exactly while names fit and saves succeed.
-/

namespace HwrunOs.Sp

open HwrunOs.Bytes HwrunOs.Runs HwrunOs.Lookup

/-! ## Comparison -/

/-- The bits that texts of one length differ in are none exactly when they are the same. -/
theorem foldl_xor_eq_zero {first second : List UInt8} (lengths : first.length = second.length)
    (start : UInt8) : (List.zipWith (· ^^^ ·) first second).foldl (· ||| ·) start = 0 ↔
      start = 0 ∧ first = second := by
  induction first generalizing second start with
  | nil =>
    obtain rfl := List.eq_nil_of_length_eq_zero lengths.symm
    simp
  | cons byte rest ih =>
    obtain ⟨other, others, rfl⟩ := List.exists_cons_of_length_eq_add_one lengths.symm
    have lengths : rest.length = others.length := by simpa using lengths
    rw [List.zipWith_cons_cons, List.foldl_cons, ih lengths, UInt8.or_eq_zero_iff,
      UInt8.xor_eq_zero_iff, List.cons.injEq, and_assoc]

/-- `sp_ct_eq` compares texts of its length. -/
theorem ctEq_eq_zero {first second : List UInt8} (rest : List UInt8)
    (lengths : first.length = second.length) :
    ctEq first (second ++ rest) first.length = 0 ↔ first = second := by
  have taken : (second ++ rest).take first.length = second := by
    rw [lengths, List.take_left]
  have folded := foldl_xor_eq_zero lengths 0
  unfold ctEq
  rw [taken, List.take_length]
  split
  next same => exact ⟨fun _ => (folded.mp same).2, fun _ => rfl⟩
  next other =>
    constructor
    · rintro ⟨⟩
    · intro same
      exact absurd (folded.mpr ⟨rfl, same⟩) other

/-! ## Passwords -/

/-- A password opens a record: its hash with the salt of the record is that of the record. -/
def Opens (sha256 : List UInt8 → Digest) (record : User) (password : CString) : Prop :=
  ∃ hash, passwordHash sha256 password record.saltHex.val true = .ok hash ∧
    ctEq hash (record.hashHex.val ++ List.replicate 64 0) 64 = 0

/-- `sp_random` and `openssl` answer a login. -/
def Login.Works (login : Login) : Prop := login.hashed = true

section

variable {sha256 : List UInt8 → Digest}

/-- A password that is not hashed is an error. -/
theorem passwordHash_error {password saltHex : CString} {hashed : Bool} {code : Int}
    (failed : passwordHash sha256 password saltHex hashed = .error code) : code ≠ spOk := by
  have invalid : einval ≠ spOk := by decide
  have broken : eio ≠ spOk := by decide
  unfold passwordHash at failed
  split at failed
  · exact Except.error.inj failed ▸ invalid
  · split at failed
    · exact Except.error.inj failed ▸ invalid
    · split at failed
      · exact Except.error.inj failed ▸ broken
      · cases failed

/-- A user authenticates when the record is enabled and the password opens it. -/
theorem authenticate_iff {users : List User} {user : CString} {record : User}
    (found : findUser users user = some record) (password : CString) (room : Option UInt32)
    {login : Login} (works : login.Works) :
    (authenticate sha256 users (some user) (some password) room login).1 = spOk ↔
      record.enabled ≠ 0 ∧ Opens sha256 record password := by
  have wrong : ebadcred ≠ spOk := by decide
  unfold authenticate
  dsimp only
  rw [found, show login.hashed = true from works]
  dsimp only
  by_cases disabled : record.enabled = 0
  · rw [if_pos disabled]
    exact ⟨fun returned => absurd returned wrong, fun allowed => absurd disabled allowed.1⟩
  · rw [if_neg disabled]
    unfold Opens
    cases result : passwordHash sha256 password record.saltHex.val true with
    | error code =>
      refine ⟨fun returned => absurd returned (passwordHash_error result), ?_⟩
      rintro ⟨-, hash, returned, -⟩
      cases returned
    | ok hash =>
      dsimp only
      by_cases same : ctEq hash (record.hashHex.val ++ List.replicate 64 0) 64 = 0
      · rw [if_neg (not_not.mpr same)]
        refine ⟨fun _ => ⟨disabled, hash, rfl, same⟩, fun _ => ?_⟩
        cases room <;> rfl
      · rw [if_pos same]
        refine ⟨fun returned => absurd returned wrong, ?_⟩
        rintro ⟨-, other, returned, equal⟩
        obtain rfl := Except.ok.inj returned
        exact absurd equal same

/-- A name without a record does not authenticate. -/
theorem authenticate_absent {users : List User} {user : CString}
    (absent : findUser users user = none) (password : CString) (room : Option UInt32)
    (login : Login) :
    (authenticate sha256 users (some user) (some password) room login).1 ≠ spOk := by
  unfold authenticate
  dsimp only
  rw [absent]
  show ebadcred ≠ spOk
  decide

/-- What a password hash is made of. -/
theorem passwordHash_salted {password : CString} {salt : Salt} {hashed : Bool} {hash : CString}
    (returned : passwordHash sha256 password (toHex salt.val) hashed = .ok hash) :
    password.length ≤ 4080 ∧ hash = toHex (sha256 (salt.val ++ password)).val := by
  have length := salt.property
  unfold passwordHash at returned
  rw [fromHex_toHex (by omega)] at returned
  dsimp only at returned
  split at returned
  · cases returned
  next short =>
    split at returned
    · cases returned
    · exact ⟨by omega, (Except.ok.inj returned).symm⟩

/-- The password of a new record, and no other that has another hash, opens it. -/
theorem created_opens {users : List User} {name password : CString} {roles : Option CString}
    {enabled : Int} {host : Host} {salt : Salt} {hash : CString} {record : User}
    (created : Created sha256 users name password roles enabled host salt hash record)
    (ideal : ∀ other, sha256 (salt.val ++ other) = sha256 (salt.val ++ password) →
      other = password) (other : CString) : Opens sha256 record other ↔ other = password := by
  have saltLength := salt.property
  have digestLength := (sha256 (salt.val ++ password)).property
  have secret := toHex_length (sha256 (salt.val ++ password)).val
  obtain ⟨short, same⟩ := passwordHash_salted created.hashed
  have salted : record.saltHex.val = toHex salt.val := by
    rw [created.same]
    exact copy_toHex (by omega)
  have stored : record.hashHex.val = toHex (sha256 (salt.val ++ password)).val := by
    rw [created.same, same]
    exact copy_toHex (by omega)
  have compared (other : CString) : ctEq (toHex (sha256 (salt.val ++ other)).val)
      (record.hashHex.val ++ List.replicate 64 0) 64 = 0 ↔
        sha256 (salt.val ++ other) = sha256 (salt.val ++ password) := by
    have digits := toHex_length (sha256 (salt.val ++ other)).val
    have bytes := (sha256 (salt.val ++ other)).property
    have compare := @ctEq_eq_zero (toHex (sha256 (salt.val ++ other)).val) record.hashHex.val
      (List.replicate 64 0) (by rw [stored]; omega)
    rw [show (toHex (sha256 (salt.val ++ other)).val).length = 64 by omega] at compare
    rw [compare, stored]
    exact ⟨fun text => Subtype.ext (toHex_injective text), fun equal => by rw [equal]⟩
  unfold Opens
  rw [salted]
  constructor
  · rintro ⟨hash, returned, equal⟩
    obtain ⟨-, rfl⟩ := passwordHash_salted returned
    exact ideal other ((compared other).mp equal)
  · rintro rfl
    refine ⟨_, ?_, (compared other).mpr rfl⟩
    unfold passwordHash
    rw [fromHex_toHex (by omega)]
    dsimp only
    rw [if_neg (by omega), if_neg]
    rintro (none | none)
    · omega
    · cases none

end

/-! ## Calls -/

/-- A call that changes the table. -/
inductive UserCall
  /-- `sp_add_user`. -/
  | add (user password roles : Option CString) (enabled : Int) (host : Host)
  /-- `sp_del_user`. -/
  | del (user : Option CString) (save : Save)

/-- What is known of a name. -/
inductive Account
  /-- No call has added or deleted it. -/
  | unknown
  /-- It is deleted. -/
  | absent
  /-- It is added, with a password and as an enabled user or not. -/
  | held (password : CString) (enabled : Bool)

/-- The plugin, and what its callers know from the calls that returned `SP_OK`. -/
structure Observed where
  /-- The plugin. -/
  ctx : Ctx
  /-- What is known of each name. -/
  accounts : CString → Account

section

variable (sha256 : List UInt8 → Digest)

/-- A call. -/
def UserCall.perform (ctx : Ctx) : UserCall → Ctx × Int
  | .add user password roles enabled host => addUser sha256 ctx user password roles enabled host
  | .del user save => delUser ctx user save

/-- What is known after a call that returned `SP_OK`. -/
def UserCall.learn (accounts : CString → Account) : UserCall → CString → Account
  | .add (some user) (some password) _ enabled _ =>
    Function.update accounts user (.held password (enabled ≠ 0))
  | .del (some user) _ => Function.update accounts user .absent
  | _ => accounts

/-- The plugin and its callers after a call. -/
def observe (observed : Observed) (call : UserCall) : Observed :=
  let (ctx, code) := call.perform sha256 observed.ctx
  ⟨ctx, if code = spOk then call.learn observed.accounts else observed.accounts⟩

/-- The names of a table. -/
def tableNames (users : List User) : List CString := users.map fun record => record.user.val

/-- What callers rely on: names are unique, a user that is added authenticates with the password,
and no other, while enabled, and one that is deleted with none. -/
structure Reliable (observed : Observed) : Prop where
  /-- Names are unique. -/
  unique : (tableNames observed.ctx.users).Nodup
  /-- An added user has the one password. -/
  held : ∀ user password enabled, observed.accounts user = .held password enabled →
    ∀ other room login, Login.Works login →
      ((authenticate sha256 observed.ctx.users (some user) (some other) room login).1 = spOk ↔
        enabled = true ∧ other = password)
  /-- A deleted user has none. -/
  absent : ∀ user, observed.accounts user = .absent → ∀ other room login,
    (authenticate sha256 observed.ctx.users (some user) (some other) room login).1 ≠ spOk

/-- A call keeps what callers rely on, and leaves the table alone when it returns an error. -/
def Keeps (observed : Observed) (call : UserCall) : Prop :=
  Reliable sha256 (observe sha256 observed call) ∧
    ((call.perform sha256 observed.ctx).2 ≠ spOk →
      (call.perform sha256 observed.ctx).1.users = observed.ctx.users)

/-- A call that changes the table saves it, and a name that is added fits its field, or its front
part is not in the table and the user is disabled. -/
def Fits (observed : Observed) : UserCall → Prop
  | .add user password roles enabled host =>
    ∀ record, newUser sha256 observed.ctx.users user password roles enabled host = .ok record →
      host.save ≠ .failed ∧ ∀ name, user = some name → name.length < 64 ∨
        enabled = 0 ∧ findUser observed.ctx.users (snprintf 64 name) = none
  | .del user save => ∀ name, user = some name →
      (findUser observed.ctx.users name).isSome = true → save ≠ .failed

/-- No other password has the hash of one that is added with its salt. -/
def UserCall.Ideal : UserCall → Prop
  | .add _ (some password) _ _ host => ∀ salt, host.salt = some salt → ∀ other,
      sha256 (salt.val ++ other) = sha256 (salt.val ++ password) → other = password
  | _ => True

end

/-! ## The invariant -/

/-- What is known agrees with the table. -/
structure Agrees (sha256 : List UInt8 → Digest) (observed : Observed) : Prop where
  /-- Names are unique. -/
  unique : (tableNames observed.ctx.users).Nodup
  /-- An enabled user that was added has a record that the password opens. -/
  on : ∀ user password, observed.accounts user = .held password true →
    ∃ record, findUser observed.ctx.users user = some record ∧ record.enabled ≠ 0 ∧
      ∀ other, Opens sha256 record other ↔ other = password
  /-- A record of a deleted or disabled user is disabled. -/
  off : ∀ user record, (observed.accounts user = .absent ∨
    ∃ password, observed.accounts user = .held password false) →
      findUser observed.ctx.users user = some record → record.enabled = 0

section

variable {sha256 : List UInt8 → Digest} {observed : Observed}

/-- A name whose records are disabled does not authenticate. -/
theorem authenticate_off {users : List User} {user : CString}
    (off : ∀ record, findUser users user = some record → record.enabled = 0) (other : CString)
    (room : Option UInt32) (login : Login) :
    (authenticate sha256 users (some user) (some other) room login).1 ≠ spOk := by
  cases found : findUser users user with
  | none => exact authenticate_absent found other room login
  | some record =>
    unfold authenticate
    dsimp only
    rw [found]
    dsimp only
    rw [if_pos (off record found)]
    show ebadcred ≠ spOk
    decide

/-- Then callers may rely on it. -/
theorem Agrees.reliable (agrees : Agrees sha256 observed) : Reliable sha256 observed := by
  refine ⟨agrees.unique, ?_, ?_⟩
  · intro user password enabled known other room login works
    cases enabled with
    | true =>
      obtain ⟨record, found, on, opens⟩ := agrees.on user password known
      rw [authenticate_iff found other room works, opens]
      exact ⟨fun both => ⟨rfl, both.2⟩, fun both => ⟨on, both.2⟩⟩
    | false =>
      have off : (authenticate sha256 observed.ctx.users (some user) (some other) room login).1 ≠
          spOk := authenticate_off
        (fun record found => agrees.off user record (.inr ⟨password, known⟩) found) other room login
      exact ⟨fun returned => absurd returned off, fun both => absurd both.1 Bool.false_ne_true⟩
  · intro user known other room login
    exact authenticate_off (fun record found => agrees.off user record (.inl known) found) other
      room login

/-- Whether a record has a name. -/
theorem isNamed_iff (name : CString) (record : User) :
    User.isNamed name record = true ↔ record.user.val = name := beq_iff_eq

/-- The record of a name in a table with a record more. -/
theorem findUser_cons (record : User) (users : List User) (name : CString) :
    findUser (record :: users) name =
      if record.user.val = name then some record else findUser users name := by
  unfold findUser
  rw [List.find?_cons]
  by_cases named : record.user.val = name
  · rw [if_pos named, (isNamed_iff name record).mpr named]
  · rw [if_neg named]
    have other : User.isNamed name record = false := by
      rw [← Bool.not_eq_true, isNamed_iff]
      exact named
    rw [other]

/-- A name without a record is not in the table. -/
theorem not_mem_tableNames {users : List User} {name : CString} :
    name ∉ tableNames users ↔ findUser users name = none := by
  rw [findUser, List.find?_eq_none, tableNames, List.mem_map]
  constructor
  · intro absent record member named
    exact absent ⟨record, member, (isNamed_iff name record).mp named⟩
  · rintro absent ⟨record, member, named⟩
    exact absent record member ((isNamed_iff name record).mpr named)

/-- A name that fits no field has no record. -/
theorem findUser_long {users : List User} {name : CString} (long : 64 ≤ name.length) :
    findUser users name = none := by
  rw [← not_mem_tableNames, tableNames, List.mem_map]
  rintro ⟨record, -, rfl⟩
  have fits := record.user.property
  omega

/-- A table with the record of a call that fits. -/
theorem Agrees.added (agrees : Agrees sha256 observed) {name password : CString}
    {roles : Option CString} {enabled : Int} {host : Host} {salt : Salt} {hash : CString}
    {record : User}
    (created : Created sha256 observed.ctx.users name password roles enabled host salt hash record)
    (ideal : ∀ other, sha256 (salt.val ++ other) = sha256 (salt.val ++ password) →
      other = password)
    (fits : name.length < 64 ∨
      enabled = 0 ∧ findUser observed.ctx.users (snprintf 64 name) = none) (file : Option CString) :
    Agrees sha256 ⟨⟨record :: observed.ctx.users, file⟩,
      Function.update observed.accounts name (.held password (enabled ≠ 0))⟩ := by
  have stored : record.user.val = snprintf 64 name := by
    rw [created.same]
    rfl
  have flag : record.enabled = if enabled = 0 then 0 else 1 := by rw [created.same]
  have whole (short : name.length < 64) : record.user.val = name := stored.trans (snprintf_eq short)
  have fresh : findUser observed.ctx.users record.user.val = none := by
    rcases fits with short | ⟨-, none⟩
    · rw [whole short]
      exact created.absent
    · rw [stored]
      exact none
  refine ⟨?_, ?_, ?_⟩
  · exact List.nodup_cons.mpr ⟨not_mem_tableNames.mpr fresh, agrees.unique⟩
  · intro user secret known
    dsimp only at known ⊢
    rw [findUser_cons]
    by_cases same : user = name
    · subst same
      rw [Function.update_self] at known
      obtain ⟨rfl, on⟩ := Account.held.inj known
      have on : enabled ≠ 0 := of_decide_eq_true on
      have short := fits.resolve_right fun long => on long.1
      refine ⟨record, if_pos (whole short), ?_, created_opens created ideal⟩
      rw [flag, if_neg on]
      decide
    · rw [Function.update_of_ne same] at known
      obtain ⟨found, there, on, opens⟩ := agrees.on user secret known
      refine ⟨found, ?_, on, opens⟩
      rw [if_neg, there]
      rintro rfl
      rw [fresh] at there
      cases there
  · intro user found known there
    dsimp only at known there
    rw [findUser_cons] at there
    by_cases same : user = name
    · subst same
      rw [Function.update_self] at known
      have disabled : enabled = 0 := by
        rcases known with ⟨⟨⟩⟩ | ⟨secret, held⟩
        have flags := (Account.held.inj held).2
        exact not_not.mp (of_decide_eq_false flags)
      split at there
      next =>
        obtain rfl := Option.some.inj there
        rw [flag, if_pos disabled]
      next =>
        rw [created.absent] at there
        cases there
    · rw [Function.update_of_ne same] at known
      split at there
      next named =>
        obtain rfl := Option.some.inj there
        rcases fits with short | ⟨disabled, -⟩
        · exact absurd (named.symm.trans (whole short)) same
        · rw [flag, if_pos disabled]
      next => exact agrees.off user found known there

/-- A table without the record of a name. -/
theorem Agrees.deleted (agrees : Agrees sha256 observed) (name : CString) (file : Option CString) :
    Agrees sha256 ⟨⟨observed.ctx.users.eraseP (User.isNamed name), file⟩,
      Function.update observed.accounts name .absent⟩ := by
  have elsewhere (user : CString) (other : user ≠ name) :
      findUser (observed.ctx.users.eraseP (User.isNamed name)) user =
        findUser observed.ctx.users user := by
    apply find?_eraseP
    intro record named
    rw [← Bool.not_eq_true, isNamed_iff, (isNamed_iff name record).mp named]
    exact Ne.symm other
  refine ⟨?_, ?_, ?_⟩
  · exact (List.eraseP_sublist.map _).nodup agrees.unique
  · intro user secret known
    dsimp only at known ⊢
    by_cases same : user = name
    · subst same
      rw [Function.update_self] at known
      cases known
    · rw [Function.update_of_ne same] at known
      rw [elsewhere user same]
      exact agrees.on user secret known
  · intro user found known there
    dsimp only at known there
    by_cases same : user = name
    · subst same
      -- Names are unique, so nothing is left of this one.
      have gone := filter_eraseP_self (isNamed_iff user) agrees.unique
      have kept := List.mem_of_find?_eq_some there
      exact absurd (List.find?_some there) (List.filter_eq_nil_iff.mp gone found kept)
    · rw [Function.update_of_ne same] at known
      rw [elsewhere user same] at there
      exact agrees.off user found known there

/-! ## One call -/

/-- A save that does not fail changes the file only. -/
theorem usersSave_saved {save : Save} (saves : save ≠ .failed) (ctx : Ctx) :
    ∃ file, usersSave ctx save = (⟨ctx.users, file⟩, spOk) := by
  cases save with
  | done => exact ⟨_, rfl⟩
  | damaged file => exact ⟨_, rfl⟩
  | failed => exact absurd rfl saves

/-- A rejected call of `sp_add_user` returns an error. -/
theorem newUser_error {users : List User} {user password roles : Option CString} {enabled : Int}
    {host : Host} {code : Int}
    (rejected : newUser sha256 users user password roles enabled host = .error code) :
    code ≠ spOk := by
  have invalid : einval ≠ spOk := by decide
  have broken : eio ≠ spOk := by decide
  have taken : eexist ≠ spOk := by decide
  have full : enomem ≠ spOk := by decide
  unfold newUser at rejected
  split at rejected
  case h_2 => exact Except.error.inj rejected ▸ invalid
  split at rejected
  · exact Except.error.inj rejected ▸ invalid
  split at rejected
  · exact Except.error.inj rejected ▸ broken
  split at rejected
  next failed =>
    obtain rfl := Except.error.inj rejected
    exact passwordHash_error failed
  split at rejected
  · exact Except.error.inj rejected ▸ taken
  split at rejected
  · exact Except.error.inj rejected ▸ full
  · cases rejected

/-- A call that returns an error and changes nothing is kept. -/
theorem Agrees.refused (agrees : Agrees sha256 observed) {call : UserCall} {code : Int}
    (failed : code ≠ spOk) (performed : call.perform sha256 observed.ctx = (observed.ctx, code)) :
    Agrees sha256 (observe sha256 observed call) ∧ Keeps sha256 observed call := by
  have same : observe sha256 observed call = observed := by
    unfold observe
    rw [performed]
    show Observed.mk observed.ctx (if code = spOk then _ else _) = observed
    rw [if_neg failed]
  unfold Keeps
  rw [same, performed]
  exact ⟨agrees, agrees.reliable, fun _ => rfl⟩

/-- A call that returns `SP_OK` is kept when what is known after it agrees. -/
theorem Agrees.accepted {call : UserCall} {ctx : Ctx}
    (performed : call.perform sha256 observed.ctx = (ctx, spOk))
    (after : Agrees sha256 ⟨ctx, call.learn observed.accounts⟩) :
    Agrees sha256 (observe sha256 observed call) ∧ Keeps sha256 observed call := by
  have same : observe sha256 observed call = ⟨ctx, call.learn observed.accounts⟩ := by
    unfold observe
    rw [performed]
    rfl
  unfold Keeps
  rw [same, performed]
  exact ⟨after, after.reliable, fun failed => absurd rfl failed⟩

/-- A call that fits keeps what is known in agreement with the table. -/
theorem Agrees.step (agrees : Agrees sha256 observed) {call : UserCall}
    (ideal : call.Ideal sha256) (fits : Fits sha256 observed call) :
    Agrees sha256 (observe sha256 observed call) ∧ Keeps sha256 observed call := by
  cases call with
  | add user password roles enabled host =>
    cases made : newUser sha256 observed.ctx.users user password roles enabled host with
    | error code => exact agrees.refused (newUser_error made) (addUser_error made)
    | ok record =>
      obtain ⟨name, secret, salt, hash, rfl, rfl, created⟩ := newUser_created made
      obtain ⟨saves, short⟩ := fits record made
      obtain ⟨file, saved⟩ :=
        usersSave_saved saves { observed.ctx with users := record :: observed.ctx.users }
      exact Agrees.accepted ((addUser_ok made).trans saved)
        (agrees.added created (ideal salt created.random) (short name rfl) file)
  | del user save =>
    cases user with
    | none =>
      have invalid : einval ≠ spOk := by decide
      exact agrees.refused invalid rfl
    | some name =>
      by_cases found : (findUser observed.ctx.users name).isNone
      · have missing : enotfound ≠ spOk := by decide
        exact agrees.refused missing (if_pos found)
      · have there : (findUser observed.ctx.users name).isSome = true :=
          Option.isSome_iff_ne_none.mpr fun none => found (Option.isNone_iff_eq_none.mpr none)
        obtain ⟨file, saved⟩ := usersSave_saved (fits name rfl there)
          { observed.ctx with users := observed.ctx.users.eraseP (User.isNamed name) }
        refine Agrees.accepted ?_ (agrees.deleted name file)
        show delUser observed.ctx (some name) save = _
        rw [← saved]
        exact if_neg found

/-- A call that changes the table and cannot save it is not kept. -/
theorem not_keeps_of_failed {call : UserCall} {users : List User}
    (performed : call.perform sha256 observed.ctx =
      usersSave { observed.ctx with users := users } .failed)
    (changed : users ≠ observed.ctx.users) :
    ¬ Keeps sha256 observed call := by
  rintro ⟨-, unchanged⟩
  rw [performed] at unchanged
  have failed : eio ≠ spOk := by decide
  exact changed (unchanged failed)

/-- No call that does not fit is kept. -/
theorem Agrees.broken {call : UserCall} (misfit : ¬ Fits sha256 observed call) :
    ¬ Keeps sha256 observed call := by
  cases call with
  | add user password roles enabled host =>
    unfold Fits at misfit
    push Not at misfit
    obtain ⟨record, made, misfit⟩ := misfit
    obtain ⟨name, secret, salt, hash, rfl, rfl, created⟩ := newUser_created made
    have performed : (UserCall.add (some name) (some secret) roles enabled host).perform sha256
        observed.ctx = usersSave { observed.ctx with users := record :: observed.ctx.users }
          host.save := addUser_ok made
    by_cases saves : host.save = .failed
    · rw [saves] at performed
      exact not_keeps_of_failed performed (List.cons_ne_self _ _)
    · obtain ⟨_, ⟨⟩, long, unfit⟩ := misfit saves
      obtain ⟨file, saved⟩ :=
        usersSave_saved saves { observed.ctx with users := record :: observed.ctx.users }
      have stored : record.user.val = snprintf 64 name := by
        rw [created.same]
        rfl
      have after : observe sha256 observed (.add (some name) (some secret) roles enabled host) =
          ⟨⟨record :: observed.ctx.users, file⟩,
            Function.update observed.accounts name (.held secret (enabled ≠ 0))⟩ := by
        unfold observe
        rw [performed, saved]
        rfl
      unfold Keeps
      rw [after]
      rintro ⟨reliable, -⟩
      by_cases disabled : enabled = 0
      · -- The front part of the name is in the table twice.
        have fresh : record.user.val ∉ tableNames observed.ctx.users :=
          (List.nodup_cons.mp reliable.unique).1
        rw [stored] at fresh
        exact unfit disabled (not_mem_tableNames.mp fresh)
      · -- The name is not found.
        have gone : findUser (record :: observed.ctx.users) name = none := findUser_long long
        have known : Function.update observed.accounts name (.held secret (enabled ≠ 0)) name =
            .held secret true := by
          rw [Function.update_self, decide_eq_true disabled]
        have opened := (reliable.held name secret true known secret none ⟨true, none, 0⟩ rfl).mpr
          ⟨rfl, rfl⟩
        exact authenticate_absent gone secret none _ opened
  | del user save =>
    unfold Fits at misfit
    push Not at misfit
    obtain ⟨name, rfl, there, rfl⟩ := misfit
    have found : ¬ (findUser observed.ctx.users name).isNone = true := fun none =>
      Option.isSome_iff_ne_none.mp there (Option.isNone_iff_eq_none.mp none)
    refine not_keeps_of_failed (if_neg found) ?_
    obtain ⟨record, search⟩ := Option.isSome_iff_exists.mp there
    have erased := List.length_eraseP_of_mem (List.mem_of_find?_eq_some search)
      (List.find?_some search)
    have filled := List.length_pos_of_mem (List.mem_of_find?_eq_some search)
    intro same
    rw [same] at erased
    omega

end

/-! ## Runs -/

/-- From any table with unique names, in every run in which no other password has the hash of one
that is added, all calls are reliable exactly when all fit. -/
theorem run_reliable_iff (sha256 : List UInt8 → Digest) {ctx : Ctx}
    (unique : (tableNames ctx.users).Nodup) (calls : List UserCall)
    (ideal : ∀ call ∈ calls, call.Ideal sha256) :
    AllSteps (observe sha256) (Keeps sha256) ⟨ctx, fun _ => .unknown⟩ calls ↔
      AllSteps (observe sha256) (Fits sha256) ⟨ctx, fun _ => .unknown⟩ calls := by
  have initial : Agrees sha256 ⟨ctx, fun _ => .unknown⟩ := by
    refine ⟨unique, ?_, ?_⟩
    · rintro user password ⟨⟩
    · rintro user record (⟨⟨⟩⟩ | ⟨password, ⟨⟩⟩)
  have usually : AllSteps (observe sha256) (fun _ call => call.Ideal sha256)
      ⟨ctx, fun _ => .unknown⟩ calls := allSteps_of_mem ideal _
  exact allSteps_iff_of_usual (fun _ _ agrees ideal fits => (agrees.step ideal fits).1)
    (fun _ _ agrees ideal fits => (agrees.step ideal fits).2)
    (fun _ _ _ _ misfit => Agrees.broken misfit) initial usually

/-! ## Two names -/

/-- A call of `sp_add_user` with the password `secret`. -/
def secretAdd (name : CString) (save : Save) : UserCall :=
  .add (some name) (some (lit "secret")) none 1
    ⟨some ⟨List.replicate 16 7, List.length_replicate⟩, true, true, save⟩

/-- A hash that tells the password `secret` from all others. -/
def secretHash (bytes : List UInt8) : Digest :=
  ⟨List.replicate 32 (if bytes = List.replicate 16 7 ++ lit "secret" then 1 else 0),
    List.length_replicate⟩

/-- No other password has the hash of `secret`. -/
theorem secretAdd_ideal (name : CString) (save : Save) :
    (secretAdd name save).Ideal secretHash := by
  rintro _ ⟨⟩ other same
  by_cases equal : List.replicate 16 7 ++ other = List.replicate 16 7 ++ lit "secret"
  · exact List.append_cancel_left equal
  · have bytes := congrArg Subtype.val same
    unfold secretHash at bytes
    dsimp only at bytes
    rw [if_neg equal, if_pos rfl] at bytes
    cases bytes

/-- A user that is added and deleted is kept, also when the second name is taken. -/
theorem run_reliable_plain : AllSteps (observe secretHash) (Keeps secretHash)
    ⟨⟨[], none⟩, fun _ => .unknown⟩
    [secretAdd (lit "alice") .done, secretAdd (lit "alice") .failed,
      .del (some (lit "alice")) .done] := by
  have fits : AllSteps (observe secretHash) (Fits secretHash) ⟨⟨[], none⟩, fun _ => .unknown⟩
      [secretAdd (lit "alice") .done, secretAdd (lit "alice") .failed,
        .del (some (lit "alice")) .done] := by
    refine ⟨?_, ?_, ?_, trivial⟩
    · rintro record -
      refine ⟨by decide, ?_⟩
      rintro name ⟨⟩
      exact .inl (by decide)
    · intro record created
      cases created
    · rintro name ⟨⟩ -
      decide
  have unique : (tableNames (Ctx.mk [] none).users).Nodup := List.nodup_nil
  exact (run_reliable_iff secretHash unique _ (by
    intro call member
    simp only [List.mem_cons, List.not_mem_nil, or_false] at member
    rcases member with rfl | rfl | rfl
    · exact secretAdd_ideal _ _
    · exact secretAdd_ideal _ _
    · trivial)).mpr fits

/-- A name of 64 bytes is added and its password refused; a call whose save fails returns an error
and has added the user. -/
theorem long_user_refused :
    (addUser secretHash ⟨[], none⟩ (some (List.replicate 64 97)) (some (lit "secret")) none 1
      ⟨some ⟨List.replicate 16 7, rfl⟩, true, true, .done⟩).2 = spOk ∧
    (authenticate secretHash (run (observe secretHash) ⟨⟨[], none⟩, fun _ => .unknown⟩
      [secretAdd (List.replicate 64 97) .done]).ctx.users (some (List.replicate 64 97))
      (some (lit "secret")) none ⟨true, none, 0⟩).1 = ebadcred ∧
    ¬ AllSteps (observe secretHash) (Keeps secretHash) ⟨⟨[], none⟩, fun _ => .unknown⟩
      [secretAdd (List.replicate 64 97) .done] ∧
    (addUser secretHash ⟨[], none⟩ (some (lit "alice")) (some (lit "secret")) none 1
      ⟨some ⟨List.replicate 16 7, rfl⟩, true, true, .failed⟩).2 = eio ∧
    ¬ AllSteps (observe secretHash) (Keeps secretHash) ⟨⟨[], none⟩, fun _ => .unknown⟩
      [secretAdd (lit "alice") .failed] := by
  have added : (addUser secretHash ⟨[], none⟩ (some (List.replicate 64 97)) (some (lit "secret"))
      none 1 ⟨some ⟨List.replicate 16 7, rfl⟩, true, true, .done⟩).2 = spOk := by decide +kernel
  refine ⟨added, by decide +kernel, ?_, by decide +kernel, ?_⟩
  · rintro ⟨kept, -⟩
    refine Agrees.broken ?_ kept
    intro fits
    obtain ⟨-, short⟩ := fits _ rfl
    rcases short _ rfl with short | ⟨off, -⟩
    · exact absurd short (by decide)
    · cases off
  · rintro ⟨kept, -⟩
    refine Agrees.broken ?_ kept
    intro fits
    exact (fits _ rfl).1 rfl

end HwrunOs.Sp
