import HwrunOs.Permission.Load
import HwrunOs.Permission.Restart
import Mathlib.Data.List.Infix

/-!
# Loading a file that was saved from a load

A load takes anything for a state file and keeps what it understands. Saving the policy and loading
the file again changes nothing but the blanks at the ends of free texts, and the loader trims those;
only a free text that is too long for its field is cut after it was trimmed, and may end in a
blank then.
-/

namespace HwrunOs.Permission

open HwrunOs.Bytes HwrunOs.Runs HwrunOs.Lookup

/-- A trimmed text has no blank at an end. -/
theorem trimWs_ends (text : CString) : hasBlankEnd (trimWs text) = false := by
  cases shape : trimWs text with
  | nil => rfl
  | cons byte rest =>
    have inside : byte :: rest <+: text.dropWhile isBlank := shape ▸ List.rdropWhile_prefix _ _
    have first : isBlank byte = false := by
      have kept := List.head?_dropWhile_not isBlank text
      obtain ⟨after, whole⟩ := inside
      rw [← whole] at kept
      exact kept
    have last : isBlank ((byte :: rest).getLast (List.cons_ne_nil _ _)) = false := by
      have kept := List.rdropWhile_last_not isLineBlank (text.dropWhile isBlank)
        (by rw [trimWs, trim] at shape; rw [shape]; exact List.cons_ne_nil _ _)
      by_contra blank
      rw [Bool.not_eq_false] at blank
      have ends := isLineBlank_of_isBlank blank
      simp only [trimWs, trim] at shape
      simp only [shape] at kept
      exact kept ends
    rw [hasBlankEnd, List.getLast?_eq_some_getLast (List.cons_ne_nil byte rest)]
    simp [first, last]

/-! ## What a load depends on -/

/-- The policy `state_read_locked` builds from a file when there is memory. -/
def loadPolicy (file : CString) : Policy := (stateLoad file fun _ => true).1

/-- The policy after one line. -/
def lineStep (policy : Policy) (line : CString) : Policy := (stateApplyLine policy line).1

/-- A line whose first word is one of some words. -/
def isOfKind (kinds : List CString) (line : CString) : Bool :=
  (takeTok 16 line).any fun taken => kinds.contains taken.1

/-- The lines of a file that begin with `role`. -/
def linesOfRoles (file : CString) : List CString :=
  (loadLines file).filter (isOfKind [lit "role"])

/-- The lines of a file that begin with `perm` or `grant`. -/
def linesOfRights (file : CString) : List CString :=
  (loadLines file).filter (isOfKind [lit "perm", lit "grant"])

/-- The lines of a file in the order in which they are applied. -/
def appliedLines (file : CString) : List CString := linesOfRoles file ++ linesOfRights file

/-- A line that is read begins with no blank. -/
theorem loadLines_head {file line : CString} (found : line ∈ loadLines file) :
    line.head?.any isBlank = false := by
  obtain ⟨raw, -, rfl⟩ := List.mem_map.mp (List.mem_filter.mp found).1
  have ends := trimWs_ends (bufferText raw)
  rw [hasBlankEnd, Bool.or_eq_false_iff] at ends
  exact ends.1

/-- The first word of a line that begins with no blank. -/
theorem takeTok_first {cap : Nat} {line token rest : CString}
    (solid : line.head?.any isBlank = false) (taken : takeTok cap line = some (token, rest)) :
    token = line.takeWhile fun byte => !isBlank byte := by
  have front : line.dropWhile isBlank = line := by
    cases line with
    | nil => rfl
    | cons byte rest =>
      have kept : isBlank byte = false := by simpa using solid
      rw [List.dropWhile_cons_of_neg (by simp [kept])]
  simp only [takeTok, front] at taken
  split at taken
  · cases taken
  · exact (Prod.mk.inj (Option.some.inj taken)).1.symm

/-- A word at the front of a line is at the front of its first word. -/
theorem prefix_first {cap : Nat} {word line token rest : CString}
    (solid : line.head?.any isBlank = false) (taken : takeTok cap line = some (token, rest))
    (plain : ∀ byte ∈ word, isBlank byte = false) (front : word <+: line) : word <+: token := by
  rw [takeTok_first solid taken]
  obtain ⟨behind, rfl⟩ := front
  rw [List.takeWhile_append_of_pos fun byte found => by rw [plain byte found]; rfl]
  exact List.prefix_append _ _

/-- The first word of a line is at its front. -/
theorem first_prefix {cap : Nat} {line token rest : CString}
    (solid : line.head?.any isBlank = false) (taken : takeTok cap line = some (token, rest)) :
    token <+: line := by
  rw [takeTok_first solid taken]
  exact List.takeWhile_prefix _

/-- A line of no known kind is skipped. -/
theorem lineStep_unknown {policy : Policy} {line : CString}
    (unknown : isOfKind [lit "role", lit "perm", lit "grant"] line = false) :
    lineStep policy line = policy := by
  unfold lineStep stateApplyLine
  cases taken : takeTok 16 line with
  | none => rfl
  | some first =>
    obtain ⟨kind, rest⟩ := first
    simp only [isOfKind, taken, Option.any_some, List.contains_eq_mem, List.mem_cons,
      List.not_mem_nil, or_false, decide_eq_false_iff_not, not_or] at unknown
    dsimp only
    rw [if_neg unknown.1, if_neg unknown.2.1, if_neg unknown.2.2]

/-- Elements that change nothing can be left out of a fold. -/
theorem foldl_filter_idle {σ α : Type} {step : σ → α → σ} {keep : α → Bool} {list : List α}
    (idle : ∀ item ∈ list, keep item = false → ∀ state, step state item = state) (state : σ) :
    (list.filter keep).foldl step state = list.foldl step state := by
  induction list generalizing state with
  | nil => rfl
  | cons head tail ih =>
    have later := ih fun item member => idle item (List.mem_cons_of_mem _ member)
    by_cases kept : keep head = true
    · rw [List.filter_cons_of_pos kept, List.foldl_cons, List.foldl_cons, later]
    · rw [List.filter_cons_of_neg kept, List.foldl_cons,
        idle head List.mem_cons_self (by simpa using kept), later]

/-- A line that a pass takes for one of its kind is of this kind or of none. -/
theorem isOfKind_of_prefix {line word : CString} {kinds : List CString}
    (solid : line.head?.any isBlank = false) (plain : ∀ byte ∈ word, isBlank byte = false)
    (others : ∀ kind ∈ [lit "role", lit "perm", lit "grant"], word <+: kind → kind ∈ kinds)
    (front : word <+: line) (missed : isOfKind kinds line = false) :
    isOfKind [lit "role", lit "perm", lit "grant"] line = false := by
  unfold isOfKind at missed ⊢
  cases taken : takeTok 16 line with
  | none => rfl
  | some first =>
    obtain ⟨kind, rest⟩ := first
    simp only [taken, Option.any_some, List.contains_eq_mem, decide_eq_false_iff_not] at missed ⊢
    exact fun known => missed (others kind known (prefix_first solid taken plain front))

/-- The lines of a kind are those of the pass that the kind belongs to. -/
theorem filter_pass {file : CString} {pass : CString → Bool} {kinds : List CString}
    (complete : ∀ line ∈ loadLines file, isOfKind kinds line = true → pass line = true)
    (strict : ∀ line ∈ loadLines file, pass line = true → isOfKind kinds line = false →
      isOfKind [lit "role", lit "perm", lit "grant"] line = false) (policy : Policy) :
    ((loadLines file).filter pass).foldl lineStep policy =
      ((loadLines file).filter (isOfKind kinds)).foldl lineStep policy := by
  have same : ((loadLines file).filter pass).filter (isOfKind kinds) =
      (loadLines file).filter (isOfKind kinds) := by
    rw [List.filter_filter]
    refine List.filter_congr ?_
    intro line found
    cases known : isOfKind kinds line with
    | false => rfl
    | true => simp [complete line found known]
  rw [← same]
  refine (foldl_filter_idle ?_ policy).symm
  intro line found missed policy
  obtain ⟨listed, passed⟩ := List.mem_filter.mp found
  exact lineStep_unknown (strict line listed passed missed)

/-- The first word of a line of a kind. -/
theorem isOfKind_prefix {line : CString} {kinds : List CString}
    (solid : line.head?.any isBlank = false) (known : isOfKind kinds line = true) :
    ∃ kind ∈ kinds, kind <+: line := by
  unfold isOfKind at known
  cases taken : takeTok 16 line with
  | none =>
    rw [taken] at known
    cases known
  | some first =>
    obtain ⟨kind, rest⟩ := first
    rw [taken] at known
    exact ⟨kind, by simpa using known, first_prefix solid taken⟩

/-- A load applies the lines that begin with `role` and then those that begin with `perm` or
`grant`, each in order. -/
theorem loadPolicy_eq (file : CString) :
    loadPolicy file = run lineStep Policy.empty (appliedLines file) := by
  have words : (∀ byte ∈ lit "role", isBlank byte = false) ∧
      (∀ byte ∈ lit "perm", isBlank byte = false) ∧
      ∀ byte ∈ lit "grant", isBlank byte = false := by decide +kernel
  have first (lines : List CString) (policy : Policy) (rc : Int) :
      (lines.foldl readRoleLine (policy, rc)).1 = lines.foldl lineStep policy := by
    induction lines generalizing policy rc with
    | nil => rfl
    | cons line rest ih => exact ih _ _
  have roles : ((loadLines file).filter isRoleLine).foldl lineStep Policy.empty =
      (linesOfRoles file).foldl lineStep Policy.empty := by
    refine filter_pass ?_ ?_ _
    · intro line listed known
      obtain ⟨kind, member, front⟩ := isOfKind_prefix (loadLines_head listed) known
      rw [List.mem_singleton.mp member] at front
      exact List.isPrefixOf_iff_prefix.mpr front
    · intro line listed passed missed
      exact isOfKind_of_prefix (loadLines_head listed) words.1 (by decide +kernel)
        (List.isPrefixOf_iff_prefix.mp passed) missed
  have rights (policy : Policy) : ((loadLines file).filter isOtherLine).foldl lineStep policy =
      (linesOfRights file).foldl lineStep policy := by
    refine filter_pass ?_ ?_ _
    · intro line listed known
      obtain ⟨kind, member, front⟩ := isOfKind_prefix (loadLines_head listed) known
      rw [isOtherLine, Bool.or_eq_true, List.isPrefixOf_iff_prefix, List.isPrefixOf_iff_prefix]
      rcases List.mem_cons.mp member with rfl | last
      · exact .inl front
      · exact .inr (List.mem_singleton.mp last ▸ front)
    · intro line listed passed missed
      rw [isOtherLine, Bool.or_eq_true, List.isPrefixOf_iff_prefix,
        List.isPrefixOf_iff_prefix] at passed
      rcases passed with front | front
      · exact isOfKind_of_prefix (loadLines_head listed) words.2.1 (by decide +kernel) front missed
      · exact isOfKind_of_prefix (loadLines_head listed) words.2.2 (by decide +kernel) front missed
  rw [loadPolicy, stateLoad_true]
  show ((loadLines file).filter isOtherLine).foldl lineStep
    (((loadLines file).filter isRoleLine).foldl readRoleLine (Policy.empty, 0)).1 = _
  rw [first, roles, rights, appliedLines, run_append]
  rfl

/-! ## What a line adds -/

/-- The free text at the end of a line, if its kind has one. -/
def lineText (line : CString) : Option CString :=
  match takeTok 16 line with
  | none => none
  | some (kind, rest) =>
    if kind = lit "role" then (takeTok 64 rest).map fun name => trimWs name.2
    else if kind = lit "perm" then
      (takeTok 64 rest).bind fun role => (takeTok 64 role.2).map fun action => trimWs action.2
    else none

/-- A free text that does not fit its field and has a blank where it is cut. -/
def isCutAtBlank (text : CString) : Bool := text[255 - 1]?.any isBlank && decide (255 < text.length)

/-- A trimmed text has a blank at an end in its field exactly when it is cut behind one. -/
theorem hasBlankEnd_cut (text : CString) :
    hasBlankEnd (snprintf 256 (trimWs text)) = isCutAtBlank (trimWs text) := by
  have ends := trimWs_ends text
  by_cases fits : (trimWs text).length < 256
  · have short : ¬ 255 < (trimWs text).length := by omega
    rw [snprintf_eq fits, ends, isCutAtBlank]
    simp [short]
  · rw [hasBlankEnd, Bool.or_eq_false_iff] at ends
    have first : (snprintf 256 (trimWs text)).head? = (trimWs text).head? := by
      rw [snprintf, List.head?_take]
      simp
    have last : (snprintf 256 (trimWs text)).getLast? = (trimWs text)[255 - 1]? := by
      have there : 255 - 1 < (trimWs text).length := by omega
      rw [snprintf, List.getLast?_take, if_neg (by decide), List.getElem?_eq_getElem there]
      rfl
    have long : 255 < (trimWs text).length := by omega
    rw [hasBlankEnd, first, last, ends.1, isCutAtBlank]
    simp [long]

/-- A line of a role adds it or nothing. -/
theorem applyRole_cases (policy : Policy) (text : CString) :
    (applyRole policy text).1 = policy ∨ ∃ name rest, takeTok 64 text = some (name, rest) ∧
      (applyRole policy text).1 = appendRole policy name (snprintf 256 (trimWs rest)) := by
  unfold applyRole
  split
  · exact .inl rfl
  rename_i name rest taken
  dsimp only
  split
  · exact .inl rfl
  split
  · exact .inl rfl
  split
  · exact .inl rfl
  · exact .inr ⟨name, rest, taken, rfl⟩

/-- Adding an entry adds it to a role or changes nothing. -/
theorem roleAddPerm_cases (policy : Policy) (name action resource : CString) :
    (roleAddPerm policy name action (some resource)).1 = policy ∨
      ∃ role, findRole policy name = some role ∧
        (roleAddPerm policy name action (some resource)).1 = { policy with
          roles := updateRole name (fun role => { role with
            perms := role.perms ++ [⟨snprintf 64 action, snprintf 256 resource⟩] })
            policy.roles } := by
  unfold roleAddPerm
  split
  · exact .inl rfl
  rename_i role found
  dsimp only [Option.getD_some]
  split
  · exact .inl rfl
  split
  · exact .inl rfl
  split
  · exact .inl rfl
  split
  · exact .inl rfl
  · exact .inr ⟨role, found, rfl⟩

/-- A line of an entry adds it to its role or changes nothing. -/
theorem applyPerm_cases (policy : Policy) (text : CString) :
    (applyPerm policy text).1 = policy ∨ ∃ name behind action rest role,
      takeTok 64 text = some (name, behind) ∧ takeTok 64 behind = some (action, rest) ∧
      findRole policy name = some role ∧
      (applyPerm policy text).1 = { policy with
        roles := updateRole name (fun role => { role with
          perms := role.perms ++ [⟨snprintf 64 action, snprintf 256 (trimWs rest)⟩] })
          policy.roles } := by
  unfold applyPerm
  split
  · exact .inl rfl
  rename_i name behind first
  split
  · exact .inl rfl
  rename_i action rest second
  dsimp only
  split
  · exact .inl rfl
  rcases roleAddPerm_cases policy name action (snprintf 256 (trimWs rest)) with
    same | ⟨role, found, done⟩
  · exact .inl same
  · rw [snprintf_snprintf] at done
    exact .inr ⟨name, behind, action, rest, role, first, second, found, done⟩

/-- A line of a binding adds it or nothing. -/
theorem applyGrant_cases (policy : Policy) (text : CString) :
    (applyGrant policy text).1 = policy ∨ ∃ subject behind name rest,
      takeTok 128 text = some (subject, behind) ∧ takeTok 64 behind = some (name, rest) ∧
      (applyGrant policy text).1 = appendBinding policy subject name := by
  unfold applyGrant
  split
  · exact .inl rfl
  rename_i subject behind first
  split
  · exact .inl rfl
  rename_i name rest second
  split
  · exact .inl rfl
  split
  · exact .inl rfl
  · exact .inr ⟨subject, behind, name, rest, first, second, rfl⟩

/-- What a line does: it changes nothing, or adds a role, an entry of a role, or a binding. -/
inductive LineAdds (policy : Policy) (line : CString) : Prop where
  /-- Nothing changes. -/
  | nothing (same : lineStep policy line = policy)
  /-- A role is added. -/
  | role (name rest : CString) (described : lineText line = some (trimWs rest))
      (done : lineStep policy line = appendRole policy name (snprintf 256 (trimWs rest)))
      (inside : name ⊆ line ∧ rest ⊆ line)
  /-- An entry is added to a role. -/
  | perm (role : Role) (name action rest : CString)
      (described : lineText line = some (trimWs rest)) (found : findRole policy name = some role)
      (done : lineStep policy line = { policy with
        roles := updateRole name (fun role => { role with
          perms := role.perms ++ [⟨snprintf 64 action, snprintf 256 (trimWs rest)⟩] })
          policy.roles })
      (inside : action ⊆ line ∧ rest ⊆ line)
  /-- A binding is added. -/
  | binding (subject name : CString) (described : lineText line = none)
      (done : lineStep policy line = appendBinding policy subject name)
      (inside : subject ⊆ line ∧ name ⊆ line)

/-- A token and what is behind it are on the line. -/
theorem takeTok_inside {cap : Nat} {text token rest : CString}
    (taken : takeTok cap text = some (token, rest)) : token ⊆ text ∧ rest ⊆ text :=
  ⟨fun byte found => ((takeTok_some taken).2.2 byte found).1, (takeTok_rest taken).subset⟩

/-- What every line does. -/
theorem lineStep_adds (policy : Policy) (line : CString) : LineAdds policy line := by
  cases first : takeTok 16 line with
  | none => exact .nothing (by simp only [lineStep, stateApplyLine, first])
  | some taken =>
    obtain ⟨kind, rest⟩ := taken
    have behind := (takeTok_inside first).2
    have applied : lineStep policy line =
        (if kind = lit "role" then applyRole policy rest
        else if kind = lit "perm" then applyPerm policy rest
        else if kind = lit "grant" then applyGrant policy rest
        else (policy, einval)).1 := by
      rw [lineStep, stateApplyLine, first]
    have described : lineText line =
        if kind = lit "role" then (takeTok 64 rest).map fun name => trimWs name.2
        else if kind = lit "perm" then
          (takeTok 64 rest).bind fun role => (takeTok 64 role.2).map fun action => trimWs action.2
        else none := by
      rw [lineText, first]
    by_cases role : kind = lit "role"
    · rw [if_pos role] at applied described
      rcases applyRole_cases policy rest with same | ⟨name, ending, taken, done⟩
      · exact .nothing (applied.trans same)
      · obtain ⟨named, ends⟩ := takeTok_inside taken
        rw [taken] at described
        exact .role name ending described (applied.trans done)
          ⟨List.Subset.trans named behind, List.Subset.trans ends behind⟩
    rw [if_neg role] at applied described
    by_cases perm : kind = lit "perm"
    · rw [if_pos perm] at applied described
      rcases applyPerm_cases policy rest with
        same | ⟨name, middle, action, ending, role, taken, second, found, done⟩
      · exact .nothing (applied.trans same)
      · have within := List.Subset.trans (takeTok_inside taken).2 behind
        obtain ⟨acts, ends⟩ := takeTok_inside second
        have text : lineText line = some (trimWs ending) := by
          rw [described, taken, Option.bind_some, second]
          rfl
        exact .perm role name action ending text found (applied.trans done)
          ⟨List.Subset.trans acts within, List.Subset.trans ends within⟩
    rw [if_neg perm] at applied described
    by_cases grant : kind = lit "grant"
    · rw [if_pos grant] at applied
      rcases applyGrant_cases policy rest with
        same | ⟨subject, middle, name, ending, taken, second, done⟩
      · exact .nothing (applied.trans same)
      · obtain ⟨owner, later⟩ := takeTok_inside taken
        have within := List.Subset.trans later behind
        exact .binding subject name described (applied.trans done)
          ⟨List.Subset.trans owner behind, List.Subset.trans (takeTok_inside second).1 within⟩
    · rw [if_neg grant] at applied
      exact .nothing applied

/-! ## Trimmed policies -/

/-- No free text has a blank at an end. -/
structure Policy.Trimmed (policy : Policy) : Prop where
  /-- No description has. -/
  descriptions : ∀ role ∈ policy.roles, hasBlankEnd role.description = false
  /-- No resource pattern has. -/
  resources : policy.Solid

/-- A line that changes the policy does not cut its free text behind a blank. -/
def CutsWell (policy : Policy) (line : CString) : Prop :=
  lineStep policy line ≠ policy → (lineText line).any isCutAtBlank = false

instance (policy : Policy) (line : CString) : Decidable (CutsWell policy line) :=
  inferInstanceAs (Decidable (_ → _))

/-- A new role leaves a policy trimmed exactly when its description is. -/
theorem trimmed_appendRole (policy : Policy) (name description : CString) :
    (appendRole policy name description).Trimmed ↔
      policy.Trimmed ∧ hasBlankEnd (snprintf 256 description) = false := by
  constructor
  · intro trimmed
    refine ⟨⟨fun role member => ?_, fun role member => ?_⟩, ?_⟩
    · exact trimmed.descriptions role (List.mem_append_left _ member)
    · exact trimmed.resources role (List.mem_append_left _ member)
    · exact trimmed.descriptions _ (List.mem_append_right _ List.mem_cons_self)
  · rintro ⟨trimmed, described⟩
    refine ⟨fun role member => ?_, fun role member => ?_⟩
    · rcases List.mem_append.mp member with old | new
      · exact trimmed.descriptions role old
      · exact List.mem_singleton.mp new ▸ described
    · rcases List.mem_append.mp member with old | new
      · exact trimmed.resources role old
      · rw [List.mem_singleton.mp new]
        intro perm none
        cases none

/-- A new entry of a role leaves a policy trimmed exactly when its resource pattern is. -/
theorem trimmed_updateRole {policy : Policy} {name : CString} {role : Role}
    (found : findRole policy name = some role) (perm : Perm) :
    Policy.Trimmed { policy with
        roles := updateRole name (fun role => { role with perms := role.perms ++ [perm] })
          policy.roles } ↔
      policy.Trimmed ∧ hasBlankEnd perm.resource = false := by
  constructor
  · intro trimmed
    refine ⟨⟨fun other member => ?_, fun other member entry listed => ?_⟩, ?_⟩
    · rcases mem_updateFirst_of_mem member with same | changed
      · exact trimmed.descriptions other same
      · have kept := trimmed.descriptions { other with perms := other.perms ++ [perm] } changed
        exact kept
    · rcases mem_updateFirst_of_mem member with same | changed
      · exact trimmed.resources other same entry listed
      · exact trimmed.resources _ changed entry (List.mem_append_left _ listed)
    · exact trimmed.resources _ (change_mem_updateFirst found) perm
        (List.mem_append_right _ List.mem_cons_self)
  · rintro ⟨trimmed, solid⟩
    refine ⟨fun other member => ?_, fun other member entry listed => ?_⟩
    · rcases mem_updateFirst member with old | ⟨first, search, rfl⟩
      · exact trimmed.descriptions other old
      · exact trimmed.descriptions first (List.mem_of_find?_eq_some search)
    · rcases mem_updateFirst member with old | ⟨first, search, rfl⟩
      · exact trimmed.resources other old entry listed
      · rcases List.mem_append.mp listed with old | new
        · exact trimmed.resources first (List.mem_of_find?_eq_some search) entry old
        · exact List.mem_singleton.mp new ▸ solid

/-- A line leaves a policy trimmed exactly when it is and the line cuts well. -/
theorem trimmed_lineStep (policy : Policy) (line : CString) :
    (lineStep policy line).Trimmed ↔ policy.Trimmed ∧ CutsWell policy line := by
  have cutting {text : CString} (described : lineText line = some text)
      (differs : lineStep policy line ≠ policy) :
      CutsWell policy line ↔ isCutAtBlank text = false := by
    rw [CutsWell, described]
    exact ⟨fun well => well differs, fun well _ => well⟩
  cases lineStep_adds policy line with
  | nothing same =>
    rw [same]
    exact ⟨fun trimmed => ⟨trimmed, fun differs => absurd same differs⟩, And.left⟩
  | role name rest described done =>
    have differs : lineStep policy line ≠ policy := by
      intro same
      rw [done] at same
      have longer := congrArg (fun policy => policy.roles.length) same
      simp [appendRole] at longer
    rw [cutting described differs, done, trimmed_appendRole, snprintf_snprintf, hasBlankEnd_cut]
  | perm role name action rest described found done =>
    have differs : lineStep policy line ≠ policy := by
      intro same
      rw [done] at same
      have kept := change_eq_of_updateFirst found (congrArg Policy.roles same)
      have longer := congrArg (fun role => role.perms.length) kept
      simp at longer
    rw [cutting described differs, done, trimmed_updateRole found, hasBlankEnd_cut]
  | binding subject name described done =>
    have free : CutsWell policy line := fun _ => by rw [described]; rfl
    rw [done]
    constructor
    · exact fun trimmed => ⟨⟨trimmed.descriptions, trimmed.resources⟩, free⟩
    · exact fun both => ⟨both.1.descriptions, both.1.resources⟩

/-- A load leaves no blank at an end exactly when all its lines cut well. -/
theorem trimmed_loadPolicy (file : CString) :
    (loadPolicy file).Trimmed ↔ AllSteps lineStep CutsWell Policy.empty (appliedLines file) := by
  have initial : Policy.empty.Trimmed := ⟨fun _ none => (nomatch none), fun _ none => nomatch none⟩
  rw [loadPolicy_eq]
  exact run_iff_allSteps trimmed_lineStep initial (appliedLines file)

/-! ## What is saved is read back -/

/-- No text of the policy holds a zero byte. -/
structure Policy.Text (policy : Policy) : Prop where
  /-- The texts of the roles. -/
  roles : ∀ role ∈ policy.roles, (0 : UInt8) ∉ role.name ∧ (0 : UInt8) ∉ role.description
  /-- The texts of their entries. -/
  perms : ∀ role ∈ policy.roles, ∀ perm ∈ role.perms,
    (0 : UInt8) ∉ perm.action ∧ (0 : UInt8) ∉ perm.resource
  /-- The texts of the bindings. -/
  bindings : ∀ binding ∈ policy.bindings, (0 : UInt8) ∉ binding.subject ∧ (0 : UInt8) ∉ binding.role

/-- A cut text has no other bytes. -/
theorem zero_snprintf {text : CString} (plain : (0 : UInt8) ∉ text) (cap : Nat) :
    (0 : UInt8) ∉ snprintf cap text :=
  fun zero => plain ((snprintf_begins cap text).subset zero)

/-- Neither has a trimmed one. -/
theorem zero_trimWs {text : CString} (plain : (0 : UInt8) ∉ text) : (0 : UInt8) ∉ trimWs text :=
  fun zero => plain (trim_mem zero)

/-- A line without zero bytes adds none. -/
theorem Policy.Text.lineStep {policy : Policy} (text : policy.Text) {line : CString}
    (plain : (0 : UInt8) ∉ line) : (lineStep policy line).Text := by
  cases lineStep_adds policy line with
  | nothing same => rwa [same]
  | role name rest described done inside =>
    have name_ : (0 : UInt8) ∉ name := fun zero => plain (inside.1 zero)
    have rest_ : (0 : UInt8) ∉ rest := fun zero => plain (inside.2 zero)
    rw [done]
    refine ⟨fun role member => ?_, fun role member => ?_, text.bindings⟩
    · rcases List.mem_append.mp member with old | new
      · exact text.roles role old
      · rw [List.mem_singleton.mp new]
        exact ⟨zero_snprintf name_ _, zero_snprintf (zero_snprintf (zero_trimWs rest_) _) _⟩
    · rcases List.mem_append.mp member with old | new
      · exact text.perms role old
      · rw [List.mem_singleton.mp new]
        intro perm none
        cases none
  | perm role name action rest described found done inside =>
    have action_ : (0 : UInt8) ∉ action := fun zero => plain (inside.1 zero)
    have rest_ : (0 : UInt8) ∉ rest := fun zero => plain (inside.2 zero)
    rw [done]
    refine ⟨fun role member => ?_, fun role member perm listed => ?_, text.bindings⟩
    · rcases mem_updateFirst member with old | ⟨first, search, rfl⟩
      · exact text.roles role old
      · exact text.roles first (List.mem_of_find?_eq_some search)
    · rcases mem_updateFirst member with old | ⟨first, search, rfl⟩
      · exact text.perms role old perm listed
      · rcases List.mem_append.mp listed with old | new
        · exact text.perms first (List.mem_of_find?_eq_some search) perm old
        · rw [List.mem_singleton.mp new]
          exact ⟨zero_snprintf action_ _, zero_snprintf (zero_trimWs rest_) _⟩
  | binding subject name described done inside =>
    have subject_ : (0 : UInt8) ∉ subject := fun zero => plain (inside.1 zero)
    have name_ : (0 : UInt8) ∉ name := fun zero => plain (inside.2 zero)
    rw [done]
    refine ⟨text.roles, text.perms, fun binding member => ?_⟩
    rcases List.mem_append.mp member with old | new
    · exact text.bindings binding old
    · rw [List.mem_singleton.mp new]
      exact ⟨zero_snprintf subject_ _, zero_snprintf name_ _⟩

/-- A line that is read holds no zero byte. -/
theorem loadLines_plain {file line : CString} (found : line ∈ loadLines file) :
    (0 : UInt8) ∉ line := by
  obtain ⟨raw, -, rfl⟩ := List.mem_map.mp (List.mem_filter.mp found).1
  refine zero_trimWs fun zero => ?_
  have kept := List.mem_takeWhile_imp zero
  simp at kept

/-- What was loaded holds no zero byte. -/
theorem loadPolicy_text (file : CString) : (loadPolicy file).Text := by
  have initial : Policy.empty.Text :=
    ⟨fun _ none => (nomatch none), fun _ none => (nomatch none), fun _ none => nomatch none⟩
  have plain : ∀ line ∈ appliedLines file, (0 : UInt8) ∉ line := by
    intro line member
    rcases List.mem_append.mp member with role | right
    · exact loadLines_plain (List.mem_filter.mp role).1
    · exact loadLines_plain (List.mem_filter.mp right).1
  rw [loadPolicy_eq]
  generalize appliedLines file = lines at plain
  generalize Policy.empty = policy at initial
  induction lines generalizing policy with
  | nil => exact initial
  | cons line rest ih =>
    exact ih (fun other member => plain other (List.mem_cons_of_mem _ member)) _
      (initial.lineStep (plain line List.mem_cons_self))

/-- What was loaded can be written. -/
theorem loadPolicy_writable (file : CString) : (loadPolicy file).Writable where
  sound := (stateLoad_spec file _).1
  subjects binding member := by
    obtain ⟨line, listed, named⟩ := (stateLoad_spec file _).2 binding member
    exact subjectOk_line listed named

/-- A policy without zero bytes is written without them. -/
theorem Policy.Text.stateText {policy : Policy} (text : policy.Text) :
    (0 : UInt8) ∉ stateText policy := by
  have tail {free : CString} (plain : (0 : UInt8) ∉ free) : (0 : UInt8) ∉ freeTail free := by
    unfold freeTail
    split
    · exact List.not_mem_nil
    · simp [plain]
  have words : (0 : UInt8) ∉ lit "role" ∧ (0 : UInt8) ∉ lit "perm" ∧ (0 : UInt8) ∉ lit "grant" := by
    decide
  have header : ∀ line ∈ headerLines, (0 : UInt8) ∉ line := by decide +kernel
  have lines : ∀ line ∈ stateLines policy, (0 : UInt8) ∉ line := by
    intro line found
    simp only [stateLines, List.mem_append, List.mem_flatMap, List.mem_map] at found
    rcases found with (head | ⟨role, member, inside⟩) | ⟨binding, member, rfl⟩
    · exact header line head
    · obtain ⟨name, description⟩ := text.roles role member
      rcases List.mem_cons.mp inside with rfl | entry
      · simp [roleLine, words.1, name, tail description]
      · obtain ⟨perm, listed, rfl⟩ := List.mem_map.mp entry
        obtain ⟨action, resource⟩ := text.perms role member perm listed
        simp [permLine, words.2.1, name, action, tail resource]
    · obtain ⟨subject, role⟩ := text.bindings binding member
      simp [grantLine, words.2.2, subject, role]
  intro zero
  obtain ⟨line, listed, inside⟩ := List.mem_flatMap.mp zero
  rcases List.mem_append.mp inside with old | feed
  · exact lines line listed old
  · exact absurd (List.mem_singleton.mp feed) (by decide)

/-- A load of what was saved from a load gives the reloaded policy. -/
theorem loadPolicy_stateText (file : CString) :
    loadPolicy (stateText (loadPolicy file)) = (loadPolicy file).reloaded := by
  rw [loadPolicy, stateLoad_eq (loadPolicy_text file).stateText,
    stateRead_stateText (loadPolicy_writable file)]

/-- Adding entries that are not there one after the other adds them all. -/
theorem foldl_addNew {perms added : List Perm} (distinct : (perms ++ added).Nodup) :
    added.foldl addNew perms = perms ++ added := by
  induction added generalizing perms with
  | nil => simp
  | cons perm rest ih =>
    have fresh : perm ∉ perms := by
      intro member
      exact (List.nodup_append.mp distinct).2.2 perm member perm List.mem_cons_self rfl
    rw [List.foldl_cons, addNew, if_neg fresh, ih (by simpa using distinct)]
    simp

/-- An entry that was added was there or came. -/
theorem mem_foldl_addNew {perms added : List Perm} {perm : Perm}
    (member : perm ∈ added.foldl addNew perms) : perm ∈ perms ∨ perm ∈ added := by
  induction added generalizing perms with
  | nil => exact .inl member
  | cons first rest ih =>
    rcases ih member with old | later
    · unfold addNew at old
      split at old
      · exact .inl old
      · rcases List.mem_append.mp old with before | new
        · exact .inl before
        · exact .inr (List.mem_singleton.mp new ▸ List.mem_cons_self)
    · exact .inr (List.mem_cons_of_mem _ later)

/-- A valid role is read back as it is exactly when its free texts are trimmed. -/
theorem role_reloaded_iff {role : Role} (valid : role.Valid) :
    role.reloaded = role ↔ hasBlankEnd role.description = false ∧
      ∀ perm ∈ role.perms, hasBlankEnd perm.resource = false := by
  constructor
  · intro same
    refine ⟨?_, fun perm member => ?_⟩
    · rw [← congrArg Role.description same]
      exact trimWs_ends _
    · rw [← congrArg Role.perms same] at member
      rcases mem_foldl_addNew member with none | read
      · cases none
      · obtain ⟨written, -, rfl⟩ := List.mem_map.mp read
        exact trimWs_ends _
  · rintro ⟨described, solid⟩
    have kept : role.perms.map Perm.reloaded = role.perms := by
      conv_rhs => rw [← List.map_id role.perms]
      refine List.map_congr_left fun perm member => ?_
      rw [Perm.reloaded, trimWs_solid (valid.perms perm member).resource (solid perm member)]
      rfl
    rw [Role.reloaded, kept, foldl_addNew (by simpa using valid.distinct),
      trimWs_solid valid.description described]
    rfl

/-- A sound policy is read back as it is exactly when its free texts are trimmed. -/
theorem reloaded_eq_iff {policy : Policy} (sound : policy.Sound) :
    policy.reloaded = policy ↔ policy.Trimmed := by
  have roles : policy.reloaded = policy ↔ ∀ role ∈ policy.roles, role.reloaded = role := by
    constructor
    · intro same role member
      have listed := congrArg Policy.roles same
      exact List.map_inj_left.mp (listed.trans (List.map_id _).symm) role member
    · intro same
      have listed : policy.roles.map Role.reloaded = policy.roles := by
        conv_rhs => rw [← List.map_id policy.roles]
        exact List.map_congr_left same
      rw [Policy.reloaded, listed]
  rw [roles]
  constructor
  · intro same
    exact ⟨fun role member =>
        ((role_reloaded_iff (sound.roles role member)).mp (same role member)).1,
      fun role member => ((role_reloaded_iff (sound.roles role member)).mp (same role member)).2⟩
  · intro trimmed role member
    exact (role_reloaded_iff (sound.roles role member)).mpr
      ⟨trimmed.descriptions role member, trimmed.resources role member⟩

/-! ## Every file -/

/-- A load after a save of what was loaded gives what the first load gave. -/
def IsStable (file : CString) : Prop := loadPolicy (stateText (loadPolicy file)) = loadPolicy file

/-- Every file with the same lines of roles and the same lines of rights gives the same policy. -/
def IsInterleavingFree (file : CString) : Prop :=
  ∀ other, linesOfRoles other = linesOfRoles file → linesOfRights other = linesOfRights file →
    loadPolicy other = loadPolicy file

/-- For every file, what is loaded is stable and does not depend on how its lines are interleaved
exactly when no line that takes effect has a free text that is cut behind a blank. -/
theorem load_stable_iff (file : CString) :
    IsStable file ∧ IsInterleavingFree file ↔
      AllSteps lineStep CutsWell Policy.empty (appliedLines file) := by
  have free : IsInterleavingFree file := by
    intro other roles rights
    rw [loadPolicy_eq, loadPolicy_eq, appliedLines, appliedLines, roles, rights]
  rw [and_iff_left free, ← trimmed_loadPolicy, IsStable, loadPolicy_stateText]
  exact reloaded_eq_iff (loadPolicy_writable file).sound

/-- A role with a description that is cut behind a blank. -/
def cutFile : CString :=
  lit "role viewer " ++ List.replicate 254 120 ++ lit " y" ++ [newline]

/-- The blank at the cut is there after a load and gone after the next one. -/
theorem cut_description_shrinks :
    ¬ (∀ file, IsStable file ∧ IsInterleavingFree file) ∧
      (loadPolicy cutFile).roles.map (fun role => role.description.length) = [255] ∧
      (loadPolicy (stateText (loadPolicy cutFile))).roles.map
        (fun role => role.description.length) = [254] := by
  have first : (loadPolicy cutFile).roles.map (fun role => role.description.length) = [255] := by
    decide +kernel
  have second : (loadPolicy (stateText (loadPolicy cutFile))).roles.map
      (fun role => role.description.length) = [254] := by decide +kernel
  refine ⟨fun stable => ?_, first, second⟩
  have kept := (stable cutFile).1
  rw [IsStable] at kept
  rw [kept, first] at second
  exact absurd second (by decide)

end HwrunOs.Permission
