import HwrunOs.Permission.Reachable

/-!
# The state file of the permission policy

`state_write_locked` writes one line for each role, entry and binding, with the free text at the
end of the line. `state_read_locked` trims each line, splits it at blanks and takes the trimmed
rest as the free text, first the lines of the roles and then the others. What is read is the
policy with the blanks at both ends of its free texts gone.
-/

namespace HwrunOs.Permission

open HwrunOs.Bytes HwrunOs.Runs HwrunOs.Lookup

/-! ## Writing -/

/-- A free text at the end of a line, with the space before it. -/
def freeTail (text : CString) : CString := if text.isEmpty then [] else 32 :: text

/-- The line of a role. -/
def roleLine (role : Role) : CString :=
  lit "role" ++ 32 :: role.name ++ freeTail role.description

/-- The line of an entry of a role. -/
def permLine (role : CString) (perm : Perm) : CString :=
  lit "perm" ++ 32 :: role ++ 32 :: perm.action ++ freeTail perm.resource

/-- The line of a binding. -/
def grantLine (binding : Binding) : CString :=
  lit "grant" ++ 32 :: binding.subject ++ 32 :: binding.role

/-- The comment lines at the top of the file. -/
def headerLines : List CString :=
  [lit "# HWRun OS PERMISSION 用户态 RBAC 状态文件 v1",
    lit "# 行格式: role <角色> [描述] | perm <角色> <动作模式> [资源模式] | grant <主体> <角色>"]

/-- The lines of a role and its entries. -/
def roleLines (role : Role) : List CString := roleLine role :: role.perms.map (permLine role.name)

/-- The lines `state_write_locked` writes. -/
def stateLines (policy : Policy) : List CString :=
  headerLines ++ policy.roles.flatMap roleLines ++ policy.bindings.map grantLine

/-- The text `state_write_locked` writes to the state file. -/
def stateText (policy : Policy) : CString := (stateLines policy).flatMap (· ++ [newline])

/-! ## Reading -/

/-- `trim_ws`. -/
def trimWs (text : CString) : CString := trim isBlank isLineBlank text

/-- `take_tok`: the next token and the text after it; nothing at the end of the line and nothing
for a token that does not fit. -/
def takeTok (cap : Nat) (text : CString) : Option (CString × CString) :=
  let start := text.dropWhile isBlank
  let token := start.takeWhile fun byte => !isBlank byte
  if token.isEmpty || decide (cap ≤ token.length) then none
  else some (token, start.dropWhile fun byte => !isBlank byte)

/-- The branch of `state_apply_line` for a role. -/
def applyRole (policy : Policy) (text : CString) : Policy × Int :=
  match takeTok 64 text with
  | none => (policy, einval)
  | some (name, rest) =>
    let description := snprintf 256 (trimWs rest)
    if !tokenOk name 64 then (policy, einval)
    else if !freeTextOk description 256 then (policy, einval)
    else if (findRole policy name).isSome then (policy, 0)
    else (appendRole policy name description, 0)

/-- The branch of `state_apply_line` for an entry. -/
def applyPerm (policy : Policy) (text : CString) : Policy × Int :=
  match takeTok 64 text with
  | none => (policy, einval)
  | some (role, rest) =>
    match takeTok 64 rest with
    | none => (policy, einval)
    | some (action, rest) =>
      let resource := snprintf 256 (trimWs rest)
      if (findRole policy role).isNone then (policy, enoent)
      else
        let (after, rc) := roleAddPerm policy role action (some resource)
        (after, if rc = eexist then 0 else rc)

/-- The branch of `state_apply_line` for a binding. -/
def applyGrant (policy : Policy) (text : CString) : Policy × Int :=
  match takeTok 128 text with
  | none => (policy, einval)
  | some (subject, rest) =>
    match takeTok 64 rest with
    | none => (policy, einval)
    | some (role, _) =>
      if (findRole policy role).isNone then (policy, enoent)
      else if (findBinding policy subject role).isSome then (policy, 0)
      else (appendBinding policy subject role, 0)

/-- `state_apply_line`. -/
def stateApplyLine (policy : Policy) (line : CString) : Policy × Int :=
  match takeTok 16 line with
  | none => (policy, einval)
  | some (kind, rest) =>
    if kind = lit "role" then applyRole policy rest
    else if kind = lit "perm" then applyPerm policy rest
    else if kind = lit "grant" then applyGrant policy rest
    else (policy, einval)

/-- The trimmed lines of a file that are neither empty nor comments. -/
def readLines (file : CString) : List CString :=
  ((fgetsLines 4096 file).map trimWs).filter fun line => !line.isEmpty && line.head? != some 35

/-- A line of the first pass of `state_read_locked`. -/
def isRoleLine (line : CString) : Bool := (lit "role").isPrefixOf line

/-- A line of the second pass. -/
def isOtherLine (line : CString) : Bool :=
  (lit "perm").isPrefixOf line || (lit "grant").isPrefixOf line

/-- The body of the first pass: an error other than a bad line is kept. -/
def readRoleLine (state : Policy × Int) (line : CString) : Policy × Int :=
  let (policy, error) := stateApplyLine state.1 line
  (policy, if error < 0 ∧ error ≠ einval then error else state.2)

/-- The body of the second pass. -/
def readOtherLine (policy : Policy) (line : CString) : Policy := (stateApplyLine policy line).1

/-- `state_read_locked` on the text of the file. -/
def stateRead (file : CString) : Policy × Int :=
  let lines := readLines file
  let (policy, rc) := (lines.filter isRoleLine).foldl readRoleLine (Policy.empty, 0)
  ((lines.filter isOtherLine).foldl readOtherLine policy, rc)

/-- The policy after a restart. -/
def restart (policy : Policy) : Policy := (stateRead (stateText policy)).1

/-! ## Tokens and free texts of a line -/

/-- A byte that breaks no token is no blank. -/
theorem isLineBlank_of_token {byte : UInt8} (plain : isTokenBreak byte = false) :
    isLineBlank byte = false := by
  simp only [isTokenBreak, Bool.or_eq_false_iff] at plain
  exact plain.1

/-- A blank ends lines too. -/
theorem isLineBlank_of_isBlank {byte : UInt8} (blank : isBlank byte = true) :
    isLineBlank byte = true := by
  simp only [isBlank, Bool.or_eq_true] at blank
  simp only [isLineBlank, Bool.or_eq_true]
  exact .inl (.inl blank)

/-- A byte that breaks no token is not skipped between tokens. -/
theorem isBlank_of_token {byte : UInt8} (plain : isTokenBreak byte = false) :
    isBlank byte = false := by
  have solid := isLineBlank_of_token plain
  by_contra blank
  rw [Bool.not_eq_false] at blank
  rw [isLineBlank_of_isBlank blank] at solid
  cases solid

/-- Blanks in front of a token are skipped. -/
theorem takeTok_space (cap : Nat) (text : CString) :
    takeTok cap (32 :: text) = takeTok cap text := by
  rw [takeTok, List.dropWhile_cons_of_pos (by decide)]
  rfl

/-- Bytes without blanks are taken up to the blank or the end after them. -/
theorem takeTok_word {cap : Nat} {token rest : CString} (filled : token ≠ [])
    (solid : ∀ byte ∈ token, isBlank byte = false) (fits : token.length < cap)
    (ends : ∀ byte ∈ rest.head?, isBlank byte = true) :
    takeTok cap (token ++ rest) = some (token, rest) := by
  have plain : ∀ byte ∈ token, (!isBlank byte) = true := by
    intro byte found
    rw [solid byte found]
    rfl
  have front : (token ++ rest).dropWhile isBlank = token ++ rest := by
    obtain ⟨first, others, rfl⟩ := List.exists_cons_of_ne_nil filled
    have first_ := plain first List.mem_cons_self
    rw [List.cons_append, List.dropWhile_cons_of_neg (by simpa using first_)]
  have stop : rest.takeWhile (fun byte => !isBlank byte) = [] ∧
      rest.dropWhile (fun byte => !isBlank byte) = rest := by
    cases rest with
    | nil => exact ⟨rfl, rfl⟩
    | cons byte rest =>
      have blank : isBlank byte = true := ends byte (by simp)
      simp [blank]
  rw [takeTok, front, List.takeWhile_append_of_pos plain, List.dropWhile_append_of_pos plain,
    stop.1, stop.2, List.append_nil]
  rw [if_neg (by simp [filled, fits])]

/-- A token that fits is taken up to the blank or the end after it. -/
theorem takeTok_token {cap max : Nat} {token rest : CString} (valid : tokenOk token max = true)
    (fits : token.length < cap) (ends : ∀ byte ∈ rest.head?, isBlank byte = true) :
    takeTok cap (token ++ rest) = some (token, rest) :=
  takeTok_word (tokenOk_filled valid)
    (fun byte found => isBlank_of_token (tokenOk_plain valid byte found)) fits ends

/-- A token behind a space. -/
theorem takeTok_next {cap max : Nat} {token rest : CString} (valid : tokenOk token max = true)
    (fits : token.length < cap) (ends : ∀ byte ∈ rest.head?, isBlank byte = true) :
    takeTok cap (32 :: token ++ rest) = some (token, rest) := by
  rw [List.cons_append, takeTok_space, takeTok_token valid fits ends]

/-- The free text of a line after the line is trimmed. -/
def readTail (text : CString) : CString := (freeTail text).rdropWhile isLineBlank

/-- What follows the last token of a line begins with a blank. -/
theorem readTail_blank (text : CString) : ∀ byte ∈ (readTail text).head?, isBlank byte = true := by
  intro byte found
  have inside : readTail text <+: freeTail text := List.rdropWhile_prefix _ _
  cases shape : readTail text with
  | nil =>
    rw [shape] at found
    cases found
  | cons first rest =>
    rw [shape] at found inside
    obtain rfl : first = byte := by simpa using found
    unfold freeTail at inside
    split at inside
    · simp at inside
    · rw [List.cons_prefix_cons] at inside
      rw [inside.1]
      rfl

/-- The free text read is the free text written without the blanks at its ends. -/
theorem trimWs_readTail (text : CString) : trimWs (readTail text) = trimWs text := by
  have same : trimWs (readTail text) = trimWs (freeTail text) :=
    trim_rdropWhile isBlank isLineBlank _
  rw [same, freeTail]
  split
  · rename_i empty
    rw [List.isEmpty_iff.mp empty]
  · exact trim_cons text (by decide)

/-- Trimming makes no text longer. -/
theorem trimWs_length (text : CString) : (trimWs text).length ≤ text.length :=
  Nat.le_trans (List.rdropWhile_prefix _ _).length_le (List.dropWhile_suffix _).length_le

/-- A trimmed free text fits its buffer and is free text. -/
theorem trimWs_free {text : CString} {max : Nat} (free : freeTextOk text max = true) :
    snprintf max (trimWs text) = trimWs text ∧ freeTextOk (trimWs text) max = true := by
  have fits : (trimWs text).length < max :=
    Nat.lt_of_le_of_lt (trimWs_length text) (freeTextOk_fits free)
  refine ⟨snprintf_eq fits, ?_⟩
  simp only [freeTextOk, Bool.and_eq_true, decide_eq_true_eq, Bool.not_eq_true',
    List.any_eq_false] at free ⊢
  exact ⟨fits, fun byte found => free.2 byte (trim_mem found)⟩

/-! ## The lines that are read -/

/-- The line of a role as it is read. -/
def readRole (role : Role) : CString := lit "role" ++ 32 :: role.name ++ readTail role.description

/-- The line of an entry as it is read. -/
def readPerm (role : CString) (perm : Perm) : CString :=
  lit "perm" ++ 32 :: role ++ 32 :: perm.action ++ readTail perm.resource

/-- The lines of a policy as they are read. -/
def policyLines (policy : Policy) : List CString :=
  policy.roles.flatMap (fun role => readRole role :: role.perms.map (readPerm role.name)) ++
    policy.bindings.map grantLine

/-- A line with a solid first byte is trimmed at its end only. -/
theorem trimWs_line {byte : UInt8} (solid : isBlank byte = false) (line : CString) :
    trimWs (byte :: line ++ [newline]) = (byte :: line).rdropWhile isLineBlank := by
  rw [trimWs, trim, List.cons_append, List.dropWhile_cons_of_neg (by simp [solid]),
    ← List.cons_append, rdropWhile_snoc _ (by decide)]

/-- Trimming a line that ends with a token and a free text trims the free text. -/
theorem rdropWhile_tail {token : CString} {max : Nat} (valid : tokenOk token max = true)
    (front text : CString) :
    (front ++ token ++ freeTail text).rdropWhile isLineBlank = front ++ token ++ readTail text := by
  have solid : (front ++ token).rdropWhile isLineBlank = front ++ token :=
    rdropWhile_word front (tokenOk_filled valid)
      (fun byte found => isLineBlank_of_token (tokenOk_plain valid byte found))
  exact rdropWhile_append solid _

/-- The line of a role is read with its description trimmed. -/
theorem trimWs_roleLine {role : Role} (valid : role.Valid) :
    trimWs (roleLine role ++ [newline]) = readRole role := by
  have trimmed := rdropWhile_tail valid.name (lit "role" ++ [32]) role.description
  have first := trimWs_line (by decide : isBlank 114 = false)
    (lit "ole" ++ 32 :: role.name ++ freeTail role.description)
  rw [List.append_assoc (lit "role")] at trimmed
  exact first.trans trimmed

/-- The line of an entry is read with its resource pattern trimmed. -/
theorem trimWs_permLine (role : CString) {perm : Perm} (valid : perm.Valid) :
    trimWs (permLine role perm ++ [newline]) = readPerm role perm := by
  have trimmed := rdropWhile_tail valid.action (lit "perm" ++ 32 :: role ++ [32]) perm.resource
  have first := trimWs_line (by decide : isBlank 112 = false)
    (lit "erm" ++ 32 :: role ++ 32 :: perm.action ++ freeTail perm.resource)
  rw [List.append_assoc (lit "perm" ++ 32 :: role)] at trimmed
  exact first.trans trimmed

/-- The line of a binding is read as written. -/
theorem trimWs_grantLine {binding : Binding} {max : Nat}
    (valid : tokenOk binding.role max = true) :
    trimWs (grantLine binding ++ [newline]) = grantLine binding := by
  have trimmed : (lit "grant" ++ 32 :: binding.subject ++ [32] ++ binding.role).rdropWhile
      isLineBlank = lit "grant" ++ 32 :: binding.subject ++ [32] ++ binding.role :=
    rdropWhile_word _ (tokenOk_filled valid)
      (fun byte found => isLineBlank_of_token (tokenOk_plain valid byte found))
  have first := trimWs_line (by decide : isBlank 103 = false)
    (lit "rant" ++ 32 :: binding.subject ++ 32 :: binding.role)
  rw [List.append_assoc (lit "grant" ++ 32 :: binding.subject)] at trimmed
  exact first.trans trimmed

/-! ## The file is read line by line -/

/-- A token is on one line. -/
theorem tokenOk_oneLine {text : CString} {max : Nat} (token : tokenOk text max = true) :
    newline ∉ text := by
  intro feed
  have broken := tokenOk_plain token newline feed
  cases broken

/-- A subject as the loader and `grant` let it in. -/
structure SubjectOk (subject : CString) : Prop where
  /-- There is one. -/
  filled : subject ≠ []
  /-- It fits its field. -/
  fits : subject.length < 128
  /-- It holds no blank. -/
  solid : ∀ byte ∈ subject, isBlank byte = false
  /-- It is on one line. -/
  oneLine : newline ∉ subject

/-- A subject that `grant` accepts. -/
theorem subjectOk_token {subject : CString} (token : tokenOk subject 128 = true) :
    SubjectOk subject :=
  ⟨tokenOk_filled token, tokenOk_fits token,
    fun byte found => isBlank_of_token (tokenOk_plain token byte found), tokenOk_oneLine token⟩

/-- A policy whose lines are read back: a sound one whose subjects are words. -/
structure Policy.Writable (policy : Policy) : Prop where
  /-- Roles and bindings belong together. -/
  sound : policy.Sound
  /-- Every subject is a word. -/
  subjects : ∀ binding ∈ policy.bindings, SubjectOk binding.subject

/-- A valid policy can be written. -/
theorem Policy.Valid.writable {policy : Policy} (valid : policy.Valid) : policy.Writable :=
  ⟨valid.sound, fun binding member => subjectOk_token (valid.subjects binding member)⟩

/-- A free text at the end of a line keeps it on one line and adds at most the space. -/
theorem freeTail_plain {text : CString} {max : Nat} (free : freeTextOk text max = true) :
    newline ∉ freeTail text ∧ (freeTail text).length ≤ max := by
  have oneLine := freeTextOk_plain free
  have fits := freeTextOk_fits free
  unfold freeTail
  split
  · exact ⟨by simp, by simp⟩
  · have space : newline ≠ 32 := by decide
    exact ⟨by simp [oneLine, space], Nat.succ_le_of_lt fits⟩

/-- Every line of a policy is on one line and fits the input buffer. -/
theorem stateLines_plain {policy : Policy} (writable : policy.Writable) :
    ∀ line ∈ stateLines policy, newline ∉ line ∧ line.length + 1 < 4096 := by
  have header : ∀ line ∈ headerLines, newline ∉ line ∧ line.length + 1 < 4096 := by
    decide +kernel
  have space : newline ≠ 32 := by decide
  intro line found
  simp only [stateLines, List.mem_append, List.mem_flatMap, List.mem_map] at found
  rcases found with (head | ⟨role, member, inside⟩) | ⟨binding, member, rfl⟩
  · exact header line head
  · have role_ := writable.sound.roles role member
    have name := tokenOk_fits role_.name
    have nameLine := tokenOk_oneLine role_.name
    rcases List.mem_cons.mp inside with rfl | inside
    · have tail := freeTail_plain role_.description
      have word : newline ∉ lit "role" ∧ (lit "role").length = 4 := by decide
      refine ⟨by simp [roleLine, space, word.1, nameLine, tail.1], ?_⟩
      have bound := tail.2
      simp only [roleLine, List.length_append, List.length_cons, word.2]
      omega
    · obtain ⟨perm, listed, rfl⟩ := List.mem_map.mp inside
      have perm_ := role_.perms perm listed
      have action := tokenOk_fits perm_.action
      have actionLine := tokenOk_oneLine perm_.action
      have tail := freeTail_plain perm_.resource
      have word : newline ∉ lit "perm" ∧ (lit "perm").length = 4 := by decide
      refine ⟨by simp [permLine, space, word.1, nameLine, actionLine, tail.1], ?_⟩
      have bound := tail.2
      simp only [permLine, List.length_append, List.length_cons, word.2]
      omega
  · have subject := writable.subjects binding member
    obtain ⟨role, listed, named⟩ := List.mem_map.mp (writable.sound.bound binding member)
    have name := (writable.sound.roles role listed).name
    rw [named] at name
    have word : newline ∉ lit "grant" ∧ (lit "grant").length = 5 := by decide
    have subjectLine := subject.oneLine
    have subjectFits := subject.fits
    have nameLine := tokenOk_oneLine name
    have nameFits := tokenOk_fits name
    refine ⟨by simp [grantLine, space, word.1, subjectLine, nameLine], ?_⟩
    simp only [grantLine, List.length_append, List.length_cons, word.2]
    omega

/-- The lines read from the file of a policy are the trimmed lines of the policy. -/
theorem readLines_stateText {policy : Policy} (writable : policy.Writable) :
    readLines (stateText policy) = policyLines policy := by
  have trimmed : (stateLines policy).map (fun line => trimWs (line ++ [newline])) =
      headerLines ++ policyLines policy := by
    have header : headerLines.map (fun line => trimWs (line ++ [newline])) = headerLines := by
      decide +kernel
    have roles : (policy.roles.flatMap roleLines).map (fun line => trimWs (line ++ [newline])) =
        policy.roles.flatMap fun role => readRole role :: role.perms.map (readPerm role.name) := by
      rw [List.map_flatMap]
      apply List.flatMap_congr
      intro role member
      have role_ := writable.sound.roles role member
      rw [roleLines, List.map_cons, trimWs_roleLine role_, List.map_map]
      congr 1
      apply List.map_congr_left
      intro perm listed
      exact trimWs_permLine role.name (role_.perms perm listed)
    have bindings : (policy.bindings.map grantLine).map (fun line => trimWs (line ++ [newline])) =
        policy.bindings.map grantLine := by
      rw [List.map_map]
      apply List.map_congr_left
      intro binding member
      obtain ⟨role, listed, named⟩ := List.mem_map.mp (writable.sound.bound binding member)
      have name := (writable.sound.roles role listed).name
      rw [named] at name
      exact trimWs_grantLine name
    rw [stateLines, List.map_append, List.map_append, header, roles, bindings, policyLines,
      List.append_assoc]
  have comments : headerLines.filter (fun line => !line.isEmpty && line.head? != some 35) = [] := by
    decide +kernel
  have kept : ∀ line ∈ policyLines policy,
      (!line.isEmpty && line.head? != some 35) = true := by
    intro line found
    simp only [policyLines, List.mem_append, List.mem_flatMap, List.mem_cons, List.mem_map] at found
    rcases found with ⟨role, -, rfl | ⟨perm, -, rfl⟩⟩ | ⟨binding, -, rfl⟩ <;> rfl
  rw [readLines, stateText, fgetsLines_flatMap _ (stateLines_plain writable), List.map_map]
  show ((stateLines policy).map fun line => trimWs (line ++ [newline])).filter _ = _
  rw [trimmed, List.filter_append, comments, List.nil_append, List.filter_eq_self.mpr kept]

/-! ## The lines of each pass -/

/-- The first pass sees the lines of the roles. -/
theorem filter_isRoleLine (policy : Policy) :
    (policyLines policy).filter isRoleLine = policy.roles.map readRole := by
  have word : lit "role" = [114, 111, 108, 101] := by decide
  have role (line : Role) : isRoleLine (readRole line) = true := by
    simp [isRoleLine, readRole, word]
  have perm (name : CString) (line : Perm) : isRoleLine (readPerm name line) = false := by
    simp [isRoleLine, readPerm, List.isPrefixOf, word,
      show lit "perm" = [112, 101, 114, 109] by decide]
  have grant (line : Binding) : isRoleLine (grantLine line) = false := by
    simp [isRoleLine, grantLine, List.isPrefixOf, word,
      show lit "grant" = [103, 114, 97, 110, 116] by decide]
  have bindings : (policy.bindings.map grantLine).filter isRoleLine = [] := by
    simp [grant]
  rw [policyLines, List.filter_append, bindings, List.append_nil, List.filter_flatMap,
    List.map_eq_flatMap]
  apply List.flatMap_congr
  intro line _
  rw [List.filter_cons_of_pos (role line)]
  simp [perm]

/-- The second pass sees the lines of the entries and the bindings. -/
theorem filter_isOtherLine (policy : Policy) :
    (policyLines policy).filter isOtherLine =
      policy.roles.flatMap (fun role => role.perms.map (readPerm role.name)) ++
        policy.bindings.map grantLine := by
  have permWord : lit "perm" = [112, 101, 114, 109] := by decide
  have grantWord : lit "grant" = [103, 114, 97, 110, 116] := by decide
  have role (line : Role) : isOtherLine (readRole line) = false := by
    simp [isOtherLine, readRole, List.isPrefixOf, permWord, grantWord,
      show lit "role" = [114, 111, 108, 101] by decide]
  have perm (name : CString) (line : Perm) : isOtherLine (readPerm name line) = true := by
    simp [isOtherLine, readPerm, permWord]
  have grant (line : Binding) : isOtherLine (grantLine line) = true := by
    simp [isOtherLine, grantLine, grantWord]
  have bindings : (policy.bindings.map grantLine).filter isOtherLine =
      policy.bindings.map grantLine := by
    rw [List.filter_eq_self]
    intro line found
    obtain ⟨binding, -, rfl⟩ := List.mem_map.mp found
    exact grant binding
  rw [policyLines, List.filter_append, bindings, List.filter_flatMap]
  congr 1
  apply List.flatMap_congr
  intro line _
  rw [List.filter_cons_of_neg (by simp [role]), List.filter_eq_self]
  intro text found
  obtain ⟨entry, -, rfl⟩ := List.mem_map.mp found
  exact perm line.name entry

/-! ## One line -/

/-- The kind of a line decides its branch. -/
theorem stateApplyLine_kind {kind rest : CString} (policy : Policy)
    (word : tokenOk kind 16 = true) :
    stateApplyLine policy (kind ++ 32 :: rest) =
      if kind = lit "role" then applyRole policy (32 :: rest)
      else if kind = lit "perm" then applyPerm policy (32 :: rest)
      else if kind = lit "grant" then applyGrant policy (32 :: rest)
      else (policy, einval) := by
  have blank : ∀ byte ∈ (32 :: rest : CString).head?, isBlank byte = true := by
    intro byte found
    obtain rfl : 32 = byte := by simpa using found
    decide
  rw [stateApplyLine, takeTok_token word (tokenOk_fits word) blank]

/-- The line of a valid role adds the role without entries, unless its name is taken. -/
theorem stateApplyLine_role (policy : Policy) {role : Role} (valid : role.Valid) :
    stateApplyLine policy (readRole role) =
      if (findRole policy role.name).isSome then (policy, 0)
      else (appendRole policy role.name (trimWs role.description), 0) := by
  have description := trimWs_free valid.description
  have token : tokenOk (lit "role") 16 = true := by decide
  have name := takeTok_next valid.name (tokenOk_fits valid.name) (readTail_blank role.description)
  have shape : readRole role = lit "role" ++ 32 :: (role.name ++ readTail role.description) := by
    simp [readRole]
  rw [shape, stateApplyLine_kind policy token, if_pos rfl, applyRole, ← List.cons_append, name]
  simp only [trimWs_readTail, description.1, description.2, valid.name]
  rfl

/-- The line of a valid entry adds the entry with its resource pattern trimmed. -/
theorem stateApplyLine_perm (policy : Policy) {role : CString} (named : tokenOk role 64 = true)
    {perm : Perm} (valid : perm.Valid) (found : role ∈ policy.roles.map Role.name) :
    (stateApplyLine policy (readPerm role perm)).1 =
      (roleAddPerm policy role perm.action (some (trimWs perm.resource))).1 := by
  have resource := trimWs_free valid.resource
  have token : tokenOk (lit "perm") 16 = true := by decide
  have other : lit "perm" ≠ lit "role" := by decide
  have action := takeTok_next valid.action (tokenOk_fits valid.action)
    (readTail_blank perm.resource)
  have blank : ∀ byte ∈ (32 :: perm.action ++ readTail perm.resource).head?,
      isBlank byte = true := by simp [isBlank]
  have name := takeTok_next named (tokenOk_fits named) blank
  have shape : readPerm role perm =
      lit "perm" ++ 32 :: (role ++ (32 :: perm.action ++ readTail perm.resource)) := by
    simp [readPerm]
  rw [shape, stateApplyLine_kind policy token, if_neg other, if_pos rfl, applyPerm,
    ← List.cons_append, name]
  dsimp only
  rw [action]
  simp only [trimWs_readTail, resource.1, findRole_isNone.mpr found]
  rfl

/-- The line of a binding adds the binding when its role exists and the binding does not. -/
theorem stateApplyLine_grant (policy : Policy) {binding : Binding}
    (subject : SubjectOk binding.subject) (role : tokenOk binding.role 64 = true)
    (found : binding.role ∈ policy.roles.map Role.name) (fresh : binding ∉ policy.bindings) :
    (stateApplyLine policy (grantLine binding)).1 =
      { policy with bindings := policy.bindings ++ [binding] } := by
  have token : tokenOk (lit "grant") 16 = true := by decide
  have others : lit "grant" ≠ lit "role" ∧ lit "grant" ≠ lit "perm" := by decide
  have last : ∀ byte ∈ ([] : CString).head?, isBlank byte = true := by simp
  have name := takeTok_next role (tokenOk_fits role) last
  have blank : ∀ byte ∈ (32 :: binding.role).head?, isBlank byte = true := by simp [isBlank]
  have owner : takeTok 128 (32 :: binding.subject ++ 32 :: binding.role) =
      some (binding.subject, 32 :: binding.role) := by
    rw [List.cons_append, takeTok_space,
      takeTok_word subject.filled subject.solid subject.fits blank]
  have shape : grantLine binding =
      lit "grant" ++ 32 :: (binding.subject ++ 32 :: binding.role) := by
    simp [grantLine]
  have absent : (findBinding policy binding.subject binding.role).isSome = false := by
    rw [findBinding, Option.isSome_eq_false_iff, Option.isNone_iff_eq_none, List.find?_eq_none]
    intro other member matched
    simp only [Binding.isOf, Bool.and_eq_true, beq_iff_eq] at matched
    have same : other = binding := by
      cases other
      cases binding
      simpa using matched
    exact fresh (same ▸ member)
  rw [List.append_nil] at name
  rw [shape, stateApplyLine_kind policy token, if_neg others.1, if_neg others.2, if_pos rfl,
    applyGrant, ← List.cons_append, owner]
  dsimp only
  rw [name]
  simp only [findRole_isNone.mpr found, absent, appendBinding, snprintf_eq subject.fits,
    snprintf_eq (tokenOk_fits role)]
  rfl

end HwrunOs.Permission
