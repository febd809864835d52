import HwrunOs.Sp.Users

/-!
# Restarts and the user table

`sp_users_save` writes a line a user, fields apart by colons, and `sp_users_load` skips a line
that begins like a comment and cuts a line at a carriage return. `sp_add_user` refuses only a
colon and a line feed in the name. A user whose name or roles have another of these bytes is
there until the next restart.
-/

namespace HwrunOs.Sp

open HwrunOs.Bytes HwrunOs.Runs

/-! ## Fields of a line -/

/-- A byte that ends a field when the user file is read: of a line, a text or a field. -/
def isFieldEnd (byte : UInt8) : Bool := byte == 0 || byte == 13 || byte == newline || byte == 58

/-- A field that is written and read back: some bytes without one that ends it. -/
def IsField (text : CString) : Prop := text ≠ [] ∧ ∀ byte ∈ text, isFieldEnd byte = false

/-- A byte that ends the text of a line. -/
def isTextEnd (byte : UInt8) : Bool := byte == 0 || byte == 13 || byte == newline

/-- A field has no byte that ends the text of a line. -/
theorem isTextEnd_of_field {byte : UInt8} (inside : isFieldEnd byte = false) :
    isTextEnd byte = false := by
  unfold isFieldEnd at inside
  exact (Bool.or_eq_false_iff.mp inside).1

/-- A field has no separator. -/
theorem isSeparator_of_field {byte : UInt8} (inside : isFieldEnd byte = false) :
    isSeparator byte = false := by
  simp only [isFieldEnd, isSeparator, Bool.or_eq_false_iff] at inside ⊢
  exact ⟨inside.2, inside.1.2⟩

/-- A record that a restart keeps: its name does not begin a comment, and name and roles have no
byte that ends a field. -/
structure User.Storable (record : User) : Prop where
  /-- The name does not begin a comment. -/
  comment : record.user.val.head? ≠ some 35
  /-- The name stays whole. -/
  user : ∀ byte ∈ record.user.val, isFieldEnd byte = false
  /-- The roles stay whole. -/
  roles : ∀ byte ∈ record.roles.val, isFieldEnd byte = false

/-- A record as `sp_add_user` makes it. -/
structure User.Made (record : User) : Prop where
  /-- It has a name. -/
  named : record.user.val ≠ []
  /-- The name has no separator. -/
  plain : ∀ byte ∈ record.user.val, isSeparator byte = false
  /-- The salt is a field. -/
  salt : IsField record.saltHex.val
  /-- The hash is a field. -/
  hash : IsField record.hashHex.val
  /-- It has roles. -/
  filled : record.roles.val ≠ []
  /-- The flag is 0 or 1. -/
  flag : record.enabled = 0 ∨ record.enabled = 1

/-! ## One record -/

/-- Hexadecimal digits end no field. -/
theorem hexDigit_field {value : UInt8} (small : value < 16) :
    isFieldEnd (hexDigit value) = false := by
  have digits : ∀ digit : Fin 16, isFieldEnd (hexDigit (UInt8.ofNat digit)) = false := by
    decide +kernel
  have named := digits ⟨value.toNat, by simpa [UInt8.lt_iff_toNat_lt] using small⟩
  rwa [UInt8.ofNat_toNat] at named

/-- Hexadecimal text of some bytes is a field. -/
theorem toHex_field {bytes : List UInt8} (filled : bytes ≠ []) : IsField (toHex bytes) := by
  constructor
  · obtain ⟨first, rest, rfl⟩ := List.exists_cons_of_ne_nil filled
    exact List.cons_ne_nil _ _
  · intro byte found
    obtain ⟨source, -, digit⟩ := List.mem_flatMap.mp found
    have high : source >>> 4 < 16 := by
      rw [UInt8.lt_iff_toNat_lt, UInt8.toNat_shiftRight]
      have bound := source.toNat_lt
      rw [Nat.shiftRight_eq_div_pow]
      show source.toNat / 16 < 16
      omega
    have low : source &&& 15 < 16 := by
      rw [UInt8.lt_iff_toNat_lt, UInt8.toNat_and]
      exact Nat.lt_of_le_of_lt Nat.and_le_right (by decide)
    rcases List.mem_pair.mp digit with rfl | rfl
    · exact hexDigit_field high
    · exact hexDigit_field low

/-- The fields of a line. -/
def userFields (record : User) : List CString :=
  [record.user.val, record.saltHex.val, record.hashHex.val, record.roles.val,
    signedDecimal record.enabled]

/-- The line of a record with roles is its fields with colons between them. -/
theorem userLine_eq {record : User} (filled : record.roles.val ≠ []) :
    userLine record = [58].intercalate (userFields record) := by
  have some_ : record.roles.val.isEmpty = false := by simpa using filled
  rw [userLine, some_]
  simp [userFields, List.intercalate]

/-- The flag of a made record is a field that is read back. -/
theorem flag_field {enabled : Int} (flag : enabled = 0 ∨ enabled = 1) :
    IsField (signedDecimal enabled) ∧ atoi (signedDecimal enabled) = enabled := by
  rcases flag with rfl | rfl
  · exact ⟨⟨by decide +kernel, by decide +kernel⟩, by decide +kernel⟩
  · exact ⟨⟨by decide +kernel, by decide +kernel⟩, by decide +kernel⟩

/-- The fields of a record that is made and storable are fields of a line. -/
theorem userFields_field {record : User} (made : record.Made) (storable : record.Storable) :
    ∀ field ∈ userFields record, IsField field := by
  intro field member
  simp only [userFields, List.mem_cons, List.not_mem_nil, or_false] at member
  rcases member with rfl | rfl | rfl | rfl | rfl
  · exact ⟨made.named, storable.user⟩
  · exact made.salt
  · exact made.hash
  · exact ⟨made.filled, storable.roles⟩
  · exact (flag_field made.flag).1

/-- The text of a line that is read: what is before the first byte that ends it. -/
def lineText (line : CString) : CString := line.takeWhile fun byte => !isTextEnd byte

/-- A line without such a byte is read whole. -/
theorem lineText_line {line : CString} (plain : ∀ byte ∈ line, isTextEnd byte = false) :
    lineText (line ++ [newline]) = line := by
  unfold lineText
  rw [List.takeWhile_append_of_pos fun byte found => by rw [plain byte found]; rfl]
  exact List.append_nil line

/-- It has no such byte. -/
theorem lineText_mem {line : CString} {byte : UInt8} (found : byte ∈ lineText line) :
    isTextEnd byte = false := by
  have kept := List.mem_takeWhile_imp found
  simpa using kept

/-- The record of a line by its text. -/
theorem parseUser_eq (line : CString) : parseUser line =
    if (lineText line).isEmpty || (lineText line).head? == some 35 then none
    else match tokens 58 (lineText line) with
      | user :: salt :: hash :: rest => some {
          user := Field.copy user
          saltHex := Field.copy salt
          hashHex := Field.copy hash
          roles := Field.copy (rest.head?.getD defaultRoles)
          enabled := match rest[1]? with
            | some enabled => atoi enabled
            | none => 1 }
      | _ => none := rfl

/-- The line of such a record is read back. -/
theorem parseUser_line {record : User} (made : record.Made) (storable : record.Storable) :
    parseUser (userLine record ++ [newline]) = some record := by
  have fields := userFields_field made storable
  have line := userLine_eq made.filled
  have plain : ∀ byte ∈ userLine record, isTextEnd byte = false := by
    intro byte found
    rw [line] at found
    rcases mem_intercalate found with rfl | ⟨field, member, here⟩
    · rfl
    · exact isTextEnd_of_field ((fields field member).2 byte here)
  have split : tokens 58 (userLine record) = userFields record := by
    have apart : ∀ field ∈ userFields record, (58 : UInt8) ∉ field := by
      intro field member found
      have inside := (fields field member).2 58 found
      cases inside
    rw [tokens, line, List.splitOn_intercalate 58 apart (List.cons_ne_nil _ _), List.filter_eq_self]
    intro field member
    simpa using (fields field member).1
  obtain ⟨first, rest, name⟩ := List.exists_cons_of_ne_nil made.named
  have begins : ∃ tail, userLine record = first :: tail := by
    rw [userLine, name]
    exact ⟨_, rfl⟩
  have comment : first ≠ 35 := by
    intro same
    apply storable.comment
    rw [name, same]
    rfl
  have opens : ((userLine record).isEmpty || (userLine record).head? == some 35) = false := by
    obtain ⟨tail, same⟩ := begins
    rw [same]
    simpa using comment
  rw [parseUser_eq, lineText_line plain, opens, split]
  simp [userFields, (flag_field made.flag).2]

/-- The record of a line that begins with neither a colon nor a comment sign is storable. -/
theorem parseUser_storable {line : CString} {record : User}
    (parsed : parseUser line = some record) (colon : (lineText line).head? ≠ some 58) :
    record.Storable := by
  rw [parseUser_eq] at parsed
  split at parsed
  · cases parsed
  next opens =>
    split at parsed
    next user salt hash rest split =>
      obtain rfl := Option.some.inj parsed
      have inside (part : CString) (listed : part ∈ user :: salt :: hash :: rest) :
          ∀ byte ∈ part, isFieldEnd byte = false := by
        intro byte found
        rw [← split] at listed
        obtain ⟨-, apart, whole⟩ := tokens_part 58 _ part listed
        have kept := lineText_mem (whole byte found)
        have other : (byte == 58) = false := by
          rw [beq_eq_false_iff_ne]
          rintro rfl
          exact apart found
        unfold isFieldEnd
        rw [other, Bool.or_false]
        exact kept
      refine ⟨?_, ?_, ?_⟩
      · intro sign
        cases text : lineText line with
        | nil =>
          rw [text] at opens
          exact opens rfl
        | cons first others =>
          rw [text] at opens split colon
          obtain ⟨tail, tokens_, head⟩ := tokens_head others
            (show first ≠ 58 from fun same => colon (congrArg some same))
          rw [split] at head
          rw [(List.cons.inj head).1] at sign
          have same : some first = some 35 := sign
          rw [Option.some.inj same] at opens
          exact opens rfl
      · exact fun byte found => inside user (.head _) byte (copy_mem found)
      · intro byte found
        have found := copy_mem found
        cases rest with
        | nil =>
          have plain : ∀ byte ∈ defaultRoles, isFieldEnd byte = false := by decide +kernel
          exact plain byte found
        | cons roles others => exact inside roles (by simp) byte found
    next => cases parsed

/-! ## The table -/

/-- The line of a record that is written is one line that fits the buffer. -/
theorem userLine_fits {record : User} (made : record.Made) (written : record.isWritten = true) :
    newline ∉ userLine record ∧ (userLine record).length + 1 < 1024 := by
  have line := userLine_eq made.filled
  have digit : signedDecimal record.enabled = [48] ∨ signedDecimal record.enabled = [49] := by
    rcases made.flag with flag | flag
    · exact .inl (by rw [flag]; decide)
    · exact .inr (by rw [flag]; decide)
  constructor
  · intro found
    rw [line] at found
    simp only [User.isWritten, Bool.not_eq_true', Bool.or_eq_false_iff,
      List.any_eq_false] at written
    have apart {field : CString} (none : ∀ byte ∈ field, ¬ isSeparator byte = true) :
        newline ∉ field := fun here => none newline here rfl
    rcases mem_intercalate found with other | ⟨field, member, here⟩
    · cases other
    · simp only [userFields, List.mem_cons, List.not_mem_nil, or_false] at member
      rcases member with rfl | rfl | rfl | rfl | rfl
      · exact apart written.1.1.1 here
      · exact apart written.1.2 here
      · exact apart written.2 here
      · exact apart written.1.1.2 here
      · rcases digit with one | one
        · rw [one] at here
          cases List.mem_singleton.mp here
        · rw [one] at here
          cases List.mem_singleton.mp here
  · have user := record.user.property
    have salt := record.saltHex.property
    have hash := record.hashHex.property
    have roles := record.roles.property
    have one : (signedDecimal record.enabled).length = 1 := by
      rcases digit with one | one
      · rw [one]; rfl
      · rw [one]; rfl
    have some_ : record.roles.val.isEmpty = false := by simpa using made.filled
    rw [userLine, some_, if_neg Bool.false_ne_true]
    simp only [List.length_append, List.length_cons, one]
    omega

/-- The records that a saved table gives when it is read. -/
theorem usersLoad_text {users : List User} (made : ∀ record ∈ users, record.Made) :
    usersLoad (usersText users) =
      ((users.filter User.isWritten).filterMap fun record =>
        parseUser (userLine record ++ [newline])).reverse := by
  have lines : ∀ text ∈ lit "# HWRun SP user table (salted sha256)" ::
      (users.filter User.isWritten).map userLine, newline ∉ text ∧ text.length + 1 < 1024 := by
    intro text listed
    rcases List.mem_cons.mp listed with rfl | later
    · exact ⟨by decide +kernel, by decide +kernel⟩
    · obtain ⟨record, written, rfl⟩ := List.mem_map.mp later
      obtain ⟨member, kept⟩ := List.mem_filter.mp written
      exact userLine_fits (made record member) kept
  rw [usersLoad, usersText, fgetsLines_flatMap _ lines, List.map_cons, List.filterMap_cons]
  have header : parseUser (lit "# HWRun SP user table (salted sha256)" ++ [newline]) = none := by
    decide +kernel
  rw [header, List.map_map, List.filterMap_map]
  rfl

/-- A table whose records are made and storable is read back, in the other order. -/
theorem usersLoad_storable {users : List User} (made : ∀ record ∈ users, record.Made)
    (storable : ∀ record ∈ users, record.Storable) :
    usersLoad (usersText users) = users.reverse := by
  have written : users.filter User.isWritten = users := by
    rw [List.filter_eq_self]
    intro record member
    have apart {field : CString} (plain : ∀ byte ∈ field, isFieldEnd byte = false) :
        field.any isSeparator = false := by
      rw [List.any_eq_false]
      intro byte here
      rw [isSeparator_of_field (plain byte here)]
      exact Bool.false_ne_true
    obtain ⟨-, user, roles⟩ := storable record member
    rw [User.isWritten, apart user, apart roles, apart (made record member).salt.2,
      apart (made record member).hash.2]
    rfl
  have read : users.filterMap (fun record => parseUser (userLine record ++ [newline])) = users := by
    rw [List.filterMap_congr fun record member =>
      parseUser_line (made record member) (storable record member)]
    exact List.filterMap_some
  rw [usersLoad_text made, written, read]

/-- Only storable records are read from a table whose records are made. -/
theorem usersLoad_sound {users : List User} (made : ∀ record ∈ users, record.Made) :
    ∀ record ∈ usersLoad (usersText users), record.Storable := by
  intro record member
  rw [usersLoad_text made, List.mem_reverse] at member
  obtain ⟨source, listed, parsed⟩ := List.mem_filterMap.mp member
  have source_made := made source (List.mem_filter.mp listed).1
  apply parseUser_storable parsed
  obtain ⟨first, rest, name⟩ := List.exists_cons_of_ne_nil source_made.named
  have plain := source_made.plain first (by rw [name]; exact .head _)
  intro colon
  have begins : (userLine source ++ [newline]).head? = some first := by
    rw [userLine, name]
    rfl
  have same : first = 58 := by
    rw [lineText, List.head?_takeWhile, begins, Option.filter_eq_some_iff] at colon
    exact Option.some.inj colon.1
  rw [same] at plain
  cases plain

/-! ## Changes -/

/-- A reload gives the users of the table. -/
def ReloadsSame (ctx : Ctx) : Prop := (reload ctx true).users.Perm ctx.users

/-- A change without an I/O failure: a save writes all, and the file can be read. -/
def Smooth : Change → Prop
  | .addUser _ _ _ _ host => host.save = .done
  | .delUser _ save => save = .done
  | .reload opened => opened = true

/-- A change that adds no user whom a restart loses. -/
def AddsStorable (sha256 : List UInt8 → Digest) (ctx : Ctx) : Change → Prop
  | .addUser user password roles enabled host =>
    ∀ record, newUser sha256 ctx.users user password roles enabled host = .ok record →
      record.Storable
  | _ => True

section

variable {sha256 : List UInt8 → Digest}

/-- A field that is copied stays one. -/
theorem IsField.copy {size : Nat} {text : CString} (field : IsField text) :
    IsField (Field.copy text : Bytes.Field (size + 1 + 1)).val :=
  ⟨copy_ne_nil field.1, fun byte found => field.2 byte (copy_mem found)⟩

/-- The hash of a password is a field. -/
theorem passwordHash_field {password saltHex hash : CString} {hashed : Bool}
    (returned : passwordHash sha256 password saltHex hashed = .ok hash) : IsField hash := by
  unfold passwordHash at returned
  split at returned
  · cases returned
  next salt read =>
    split at returned
    · cases returned
    split at returned
    · cases returned
    obtain rfl := Except.ok.inj returned
    apply toHex_field
    intro empty
    have length := (sha256 (salt ++ password)).property
    rw [empty] at length
    cases length

/-- There are roles in a stored role list. -/
theorem storedRoles_ne_nil (roles : Option CString) : (storedRoles roles).val ≠ [] := by
  have named : defaultRoles ≠ [] := by decide
  apply copy_ne_nil
  cases roles with
  | none => exact named
  | some roles =>
    dsimp only
    split
    next => exact named
    next filled => simpa using filled

/-- A record that `sp_add_user` makes. -/
theorem newUser_made {users : List User} {user password roles : Option CString} {enabled : Int}
    {host : Host} {record : User}
    (created : newUser sha256 users user password roles enabled host = .ok record) :
    record.Made := by
  obtain ⟨name, _, salt, hash, -, -, made⟩ := newUser_created created
  have salted : salt.val ≠ [] := by
    intro empty
    have length := salt.property
    rw [empty] at length
    cases length
  rw [made.same]
  refine ⟨copy_ne_nil made.filled, fun byte found => made.plain byte (copy_mem found),
    (toHex_field salted).copy, (passwordHash_field made.hashed).copy, storedRoles_ne_nil roles, ?_⟩
  by_cases disabled : enabled = 0
  · exact .inl (if_pos disabled)
  · exact .inr (if_neg disabled)

/-- The users of a table are made and storable, and a reload gives them. -/
structure Settled (ctx : Ctx) : Prop where
  /-- The records are made. -/
  made : ∀ record ∈ ctx.users, record.Made
  /-- The records are storable. -/
  storable : ∀ record ∈ ctx.users, record.Storable
  /-- A reload gives them. -/
  same : ReloadsSame ctx

/-- A table of made and storable records that is saved is settled. -/
theorem settled_saved {users : List User} (made : ∀ record ∈ users, record.Made)
    (storable : ∀ record ∈ users, record.Storable) : Settled ⟨users, some (usersText users)⟩ := by
  refine ⟨made, storable, ?_⟩
  have read := usersLoad_storable made storable
  show (usersLoad (usersText users)).Perm users
  rw [read]
  exact List.reverse_perm users

/-- A change without an I/O failure that adds no user whom a restart loses keeps a settled table
settled. -/
theorem Settled.step {ctx : Ctx} (settled : Settled ctx) {change : Change}
    (smooth : Smooth change) (adds : AddsStorable sha256 ctx change) :
    Settled (usersStep sha256 ctx change) := by
  cases change with
  | addUser user password roles enabled host =>
    unfold usersStep addUser
    dsimp only
    split
    · exact settled
    next record created =>
      rw [show host.save = .done from smooth]
      apply settled_saved
      · exact List.forall_mem_cons.mpr ⟨newUser_made created, settled.made⟩
      · exact List.forall_mem_cons.mpr ⟨adds record created, settled.storable⟩
  | delUser user save =>
    unfold usersStep delUser
    dsimp only
    split
    · exact settled
    · split
      · exact settled
      · rw [show save = .done from smooth]
        apply settled_saved
        · exact fun record member => settled.made record (List.mem_of_mem_eraseP member)
        · exact fun record member => settled.storable record (List.mem_of_mem_eraseP member)
  | reload opened =>
    obtain rfl : opened = true := smooth
    refine ⟨?_, ?_, List.Perm.refl _⟩
    · exact fun record member => settled.made record (settled.same.mem_iff.mp member)
    · exact fun record member => settled.storable record (settled.same.mem_iff.mp member)

/-- A change that adds a user whom a restart loses leaves a table that a reload does not give. -/
theorem Settled.lost {ctx : Ctx} (settled : Settled ctx) {change : Change}
    (smooth : Smooth change) (loses : ¬ AddsStorable sha256 ctx change) :
    ¬ ReloadsSame (usersStep sha256 ctx change) := by
  cases change with
  | addUser user password roles enabled host =>
    unfold AddsStorable at loses
    push Not at loses
    obtain ⟨record, created, unstorable⟩ := loses
    unfold usersStep addUser
    dsimp only
    rw [created, show host.save = .done from smooth]
    have made : ∀ record_ ∈ record :: ctx.users, record_.Made :=
      List.forall_mem_cons.mpr ⟨newUser_made created, settled.made⟩
    intro same
    have read : (usersLoad (usersText (record :: ctx.users))).Perm (record :: ctx.users) := same
    exact unstorable (usersLoad_sound made record (read.mem_iff.mpr (.head _)))
  | delUser user save => exact absurd trivial loses
  | reload opened => exact absurd trivial loses

/-- In every run from the start of the plugin without a user file and without I/O failures, a
reload gives the same users in all states exactly when no call adds a user whose name begins with
a comment sign or has a carriage return, or whose roles have a colon or a line end. -/
theorem run_reloads_iff (sha256 : List UInt8 → Digest) (changes : List Change)
    (smooth : ∀ change ∈ changes, Smooth change) :
    AllStates (usersStep sha256) ReloadsSame ⟨[], none⟩ changes ↔
      AllSteps (usersStep sha256) (AddsStorable sha256) ⟨[], none⟩ changes := by
  have initial : Settled ⟨[], none⟩ :=
    ⟨by rintro _ ⟨⟩, by rintro _ ⟨⟩, List.Perm.refl _⟩
  have usually : AllSteps (usersStep sha256) (fun _ change => Smooth change) ⟨[], none⟩ changes :=
    allSteps_of_mem smooth _
  have kept (ctx : Ctx) (change : Change) (settled : Settled ctx)
      (ok : Smooth change ∧ AddsStorable sha256 ctx change) :
      Settled (usersStep sha256 ctx change) := settled.step ok.1 ok.2
  have broken (ctx : Ctx) (change : Change) (settled : Settled ctx) (smooth : Smooth change)
      (loses : ¬ (Smooth change ∧ AddsStorable sha256 ctx change)) :
      ¬ ReloadsSame (usersStep sha256 ctx change) :=
    settled.lost smooth fun adds => loses ⟨smooth, adds⟩
  rw [allStates_iff_allSteps (fun _ settled => settled.same) kept broken initial usually]
  constructor
  · exact AllSteps.mono fun _ _ both => both.2
  · exact usually.and

end

/-! ## Two users -/

/-- A call of `sp_add_user` on which nothing fails. -/
def plainAdd (user password : String) (roles : Option CString) : Change :=
  .addUser (some (lit user)) (some (lit password)) roles 1
    ⟨some ⟨List.replicate 16 7, rfl⟩, true, true, .done⟩

/-- A hash that is always the same. -/
def zeroHash : List UInt8 → Digest := fun _ => ⟨List.replicate 32 0, rfl⟩

/-- The user is kept with ordinary arguments and over a restart. -/
theorem run_reloads_plain : AllStates (usersStep zeroHash) ReloadsSame ⟨[], none⟩
    [plainAdd "alice" "secret" none, .reload true, .delUser (some (lit "alice")) .done] := by
  have ordinary : AllSteps (usersStep zeroHash) (AddsStorable zeroHash) ⟨[], none⟩
      [plainAdd "alice" "secret" none, .reload true, .delUser (some (lit "alice")) .done] := by
    refine ⟨?_, trivial, trivial, trivial⟩
    intro record created
    obtain rfl := Except.ok.inj created
    exact ⟨by decide +kernel, by decide +kernel, by decide +kernel⟩
  exact (run_reloads_iff zeroHash
    [plainAdd "alice" "secret" none, .reload true, .delUser (some (lit "alice")) .done]
    (by
      intro change member
      simp only [List.mem_cons, List.not_mem_nil, or_false] at member
      rcases member with rfl | rfl | rfl
      · rfl
      · rfl
      · rfl)).mpr ordinary

/-- A user whose name begins with `#` is added, and is gone after a restart. -/
theorem comment_user_lost :
    (addUser zeroHash ⟨[], none⟩ (some (lit "#bob")) (some (lit "secret")) none 1
      ⟨some ⟨List.replicate 16 7, rfl⟩, true, true, .done⟩).2 = spOk ∧
    (run (usersStep zeroHash) ⟨[], none⟩ [plainAdd "#bob" "secret" none]).users.length = 1 ∧
    (run (usersStep zeroHash) ⟨[], none⟩ [plainAdd "#bob" "secret" none, .reload true]).users = [] ∧
    ¬ AllStates (usersStep zeroHash) ReloadsSame ⟨[], none⟩ [plainAdd "#bob" "secret" none] := by
  refine ⟨by decide +kernel, by decide +kernel, by decide +kernel, ?_⟩
  intro same
  have lengths := same.last.length_eq
  exact absurd lengths (by decide +kernel)

end HwrunOs.Sp
